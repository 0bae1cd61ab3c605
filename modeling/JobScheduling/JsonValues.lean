import JobScheduling.JsonLexemes

/-! # JSON values and their texts

    What Python's `json.dumps` writes for a value and what `json.loads` makes
    of a text, over any type of floats.  `loads` may fail in three ways: the
    text is no JSON (`decode`), it is nested too deeply (`recursion`), or an
    integer has too many digits (`digits`).

    * `loads_dumps`: a well-formed value is read back from its text, which is
      ASCII (`dumps_printable`);
    * `loads_wellFormed`: only well-formed values are read;
    * `loads_fuel`: the scanner's fuel always suffices.

    A value is well formed (`WellFormed`) if its strings have no surrogate
    pairs, the keys of each object are distinct, its integers fit the limit,
    its floats are read back from what is written for them, and it is not
    nested too deeply. -/

namespace JsonText

/-- How floats are read and written. -/
structure Floats (φ : Type) where
  read : List Char → φ
  write : φ → List Char

/-- How many levels of nesting and how many digits of an integer are read.  The
    levels are those in effect where the text is parsed. -/
structure Limits where
  depth : Nat
  digits : Nat

inductive Value (φ : Type) where
  | null
  | bool (b : Bool)
  | int (n : Int)
  | float (x : φ)
  | str (s : List Nat)
  | arr (items : List (Value φ))
  | obj (fields : List (List Nat × Value φ))

/-- Why a text is not read; `fuel` is not one of the reasons (`loads_fuel`). -/
inductive Failure where
  | decode
  | recursion
  | digits
  | fuel
deriving DecidableEq

variable {φ : Type}

def nanText : List Char := ['N', 'a', 'N']
def infinityText : List Char := ['I', 'n', 'f', 'i', 'n', 'i', 't', 'y']

/-! ## Writing -/

/-- `", ".join(texts)`. -/
def commaSep : List (List Char) → List Char
  | [] => []
  | [t] => t
  | t :: u :: ts => t ++ ',' :: ' ' :: commaSep (u :: ts)

section Writing

variable (F : Floats φ)

mutual

/-- `json.dumps(value)`. -/
def dumps : Value φ → List Char
  | .null => ['n', 'u', 'l', 'l']
  | .bool true => ['t', 'r', 'u', 'e']
  | .bool false => ['f', 'a', 'l', 's', 'e']
  | .int n => printInt n
  | .float x => F.write x
  | .str s => '"' :: printBody s
  | .arr vs => '[' :: (commaSep (dumpsItems vs) ++ [']'])
  | .obj fs => '{' :: (commaSep (dumpsFields fs) ++ ['}'])

def dumpsItems : List (Value φ) → List (List Char)
  | [] => []
  | v :: vs => dumps v :: dumpsItems vs

def dumpsFields : List (List Nat × Value φ) → List (List Char)
  | [] => []
  | (k, v) :: fs => ('"' :: (printBody k ++ ':' :: ' ' :: dumps v)) :: dumpsFields fs

end

end Writing

/-! ## Reading -/

def isSpace (c : Char) : Bool := c = ' ' || c = '\t' || c = '\n' || c = '\r'

def skipSpace (s : List Char) : List Char := s.dropWhile isSpace

/-- The text behind the character, if it is next. -/
def next (d : Char) : List Char → Option (List Char)
  | [] => none
  | c :: rest => if c = d then some rest else none

/-- `d[k] = v`: an item that is there keeps its place. -/
def setItem (k : List Nat) (v : Value φ) :
    List (List Nat × Value φ) → List (List Nat × Value φ)
  | [] => [(k, v)]
  | (k', v') :: d => if k' = k then (k, v) :: d else (k', v') :: setItem k v d

/-- The dict of an object's members, in the order of the text. -/
def dict (fs : List (List Nat × Value φ)) : List (List Nat × Value φ) :=
  fs.foldl (fun d p => setItem p.1 p.2 d) []

/-- The key of a member, with its colon. -/
def scanKey (s : List Char) : Option (List Nat × List Char) :=
  (next '"' s).bind (fun t => (scanString t).bind (fun p =>
    (next ':' (skipSpace p.2)).map (fun u => (p.1, skipSpace u))))

section Reading

variable (F : Floats φ) (lim : Limits)

def constants : List (List Char × Value φ) :=
  [(['n', 'u', 'l', 'l'], .null), (['t', 'r', 'u', 'e'], .bool true),
    (['f', 'a', 'l', 's', 'e'], .bool false), (nanText, .float (F.read nanText)),
    (infinityText, .float (F.read infinityText)),
    ('-' :: infinityText, .float (F.read ('-' :: infinityText)))]

def scanConstant (s : List Char) : Option (Value φ × List Char) :=
  (constants F).findSome? (fun p =>
    if p.1.isPrefixOf s then some (p.2, s.drop p.1.length) else none)

def scanNumeral (s : List Char) : Except Failure (Value φ × List Char) :=
  match scanNumber s with
  | none => .error .decode
  | some (n, rest) =>
      if n.tail = [] then
        if lim.digits < n.whole.length then .error .digits
        else .ok (.int n.int, rest)
      else .ok (.float (F.read n.text), rest)

mutual

/-- One value off the text, at a level with so many below it. -/
def scanOnce : Nat → Nat → List Char → Except Failure (Value φ × List Char)
  | 0, _, _ => .error .fuel
  | _ + 1, _, [] => .error .decode
  | fuel + 1, depth, c :: rest =>
      if c = '"' then
        match scanString rest with
        | some (s, rest') => .ok (.str s, rest')
        | none => .error .decode
      else if c = '{' then
        -- each brace or bracket is a level of recursion
        match depth with
        | 0 => .error .recursion
        | depth + 1 =>
            match next '}' (skipSpace rest) with
            | some rest' => .ok (.obj [], rest')
            | none => (scanFields fuel depth (skipSpace rest)).map
                (fun p => (.obj (dict p.1), p.2))
      else if c = '[' then
        match depth with
        | 0 => .error .recursion
        | depth + 1 =>
            match next ']' (skipSpace rest) with
            | some rest' => .ok (.arr [], rest')
            | none => (scanItems fuel depth (skipSpace rest)).map
                (fun p => (.arr p.1, p.2))
      else
        -- `-Infinity` comes before the numbers
        match scanConstant F (c :: rest) with
        | some p => .ok p
        | none => scanNumeral F lim (c :: rest)

/-- The items of an array, with its closing bracket. -/
def scanItems : Nat → Nat → List Char →
    Except Failure (List (Value φ) × List Char)
  | 0, _, _ => .error .fuel
  | fuel + 1, depth, s =>
      match scanOnce fuel depth s with
      | .error e => .error e
      | .ok (v, t) =>
          match next ']' (skipSpace t) with
          | some rest => .ok ([v], rest)
          | none =>
              match next ',' (skipSpace t) with
              | some u => (scanItems fuel depth (skipSpace u)).map
                  (fun p => (v :: p.1, p.2))
              | none => .error .decode

/-- The members of an object, with its closing brace. -/
def scanFields : Nat → Nat → List Char →
    Except Failure (List (List Nat × Value φ) × List Char)
  | 0, _, _ => .error .fuel
  | fuel + 1, depth, s =>
      match scanKey s with
      | none => .error .decode
      | some (k, s') =>
          match scanOnce fuel depth s' with
          | .error e => .error e
          | .ok (v, t) =>
              match next '}' (skipSpace t) with
              | some rest => .ok ([(k, v)], rest)
              | none =>
                  match next ',' (skipSpace t) with
                  | some u => (scanFields fuel depth (skipSpace u)).map
                      (fun p => ((k, v) :: p.1, p.2))
                  | none => .error .decode

end

def byteOrderMark : Char := Char.ofNat 0xFEFF

/-- The fuel a text needs at most. -/
def fuelOf (s : List Char) : Nat := 2 * s.length + 1

/-- `json.loads(text)`.  Making a `JSONDecodeError` takes a few frames, so for a
    text nested to within a few levels of the limit the real one may raise
    `RecursionError` where this one fails with `decode`. -/
def loads (s : List Char) : Except Failure (Value φ) :=
  -- a byte order mark is no white space
  if s.head? = some byteOrderMark then .error .decode
  else
    match scanOnce F lim (fuelOf (skipSpace s)) lim.depth (skipSpace s) with
    | .error e => .error e
    | .ok (v, rest) => if skipSpace rest = [] then .ok v else .error .decode

end Reading

/-! ## Well-formed values -/

/-- What is written for the float is read as a float, and as this one. -/
def Floats.Faithful (F : Floats φ) (x : φ) : Prop :=
  F.read (F.write x) = x
    ∧ (F.write x ∈ [nanText, infinityText, '-' :: infinityText]
      ∨ ∃ n, scanNumber (F.write x) = some (n, []) ∧ n.tail ≠ [])

/-- The value is read back from its text, at a level with `d` below it. -/
inductive WellFormed (F : Floats φ) (lim : Limits) : Nat → Value φ → Prop where
  | null (d : Nat) : WellFormed F lim d .null
  | bool (d : Nat) (b : Bool) : WellFormed F lim d (.bool b)
  | int (d : Nat) (n : Int)
      (short : (Nat.toDigits 10 n.natAbs).length ≤ lim.digits) :
      WellFormed F lim d (.int n)
  | float (d : Nat) (x : φ) (faithful : F.Faithful x) : WellFormed F lim d (.float x)
  | str (d : Nat) (s : List Nat) (paired : WellPaired s) : WellFormed F lim d (.str s)
  | arr (d : Nat) (vs : List (Value φ)) (items : ∀ v ∈ vs, WellFormed F lim d v) :
      WellFormed F lim (d + 1) (.arr vs)
  | obj (d : Nat) (fs : List (List Nat × Value φ)) (keys : (fs.map Prod.fst).Nodup)
      (paired : ∀ p ∈ fs, WellPaired p.1)
      (values : ∀ p ∈ fs, WellFormed F lim d p.2) : WellFormed F lim (d + 1) (.obj fs)

/-! ## A written value is read back -/

section RoundTrip

variable {F : Floats φ} {lim : Limits}

theorem next_self (c : Char) (rest : List Char) : next c (c :: rest) = some rest := by
  rw [next, if_pos rfl]

theorem next_ne {c d : Char} (h : c ≠ d) (rest : List Char) :
    next d (c :: rest) = none := by
  rw [next, if_neg h]

/-- What is no white space is not skipped. -/
theorem skipSpace_cons {c : Char} (h : isSpace c = false) (rest : List Char) :
    skipSpace (c :: rest) = c :: rest := by
  rw [skipSpace, List.dropWhile_cons, h]
  rfl

theorem skipSpace_space (rest : List Char) :
    skipSpace (' ' :: rest) = skipSpace rest := by
  rw [skipSpace, List.dropWhile_cons]
  rfl

/-- The items of a list are written one by one. -/
theorem dumpsItems_eq (vs : List (Value φ)) :
    dumpsItems F vs = vs.map (dumps F) := by
  induction vs with
  | nil => rfl
  | cons v vs ih => rw [dumpsItems, ih, List.map_cons]

/-- The text of a member. -/
def memberText (F : Floats φ) (p : List Nat × Value φ) : List Char :=
  '"' :: (printBody p.1 ++ ':' :: ' ' :: dumps F p.2)

theorem dumpsFields_eq (fs : List (List Nat × Value φ)) :
    dumpsFields F fs = fs.map (memberText F) := by
  induction fs with
  | nil => rfl
  | cons p fs ih => rw [dumpsFields, ih, List.map_cons, memberText]

/-- A dict of distinct keys is the list of its members. -/
theorem dict_of_nodup {fs : List (List Nat × Value φ)}
    (h : (fs.map Prod.fst).Nodup) : dict fs = fs := by
  have hset : ∀ (d : List (List Nat × Value φ)) (k : List Nat) (v : Value φ),
      k ∉ d.map Prod.fst → setItem k v d = d ++ [(k, v)] := by
    intro d k v hk
    induction d with
    | nil => rfl
    | cons p d ih =>
        rw [List.map_cons, List.mem_cons, not_or] at hk
        rw [setItem, if_neg (Ne.symm hk.1), ih hk.2, List.cons_append]
  have hfold : ∀ d, (d ++ fs).map Prod.fst |>.Nodup →
      fs.foldl (fun d p => setItem p.1 p.2 d) d = d ++ fs := by
    induction fs with
    | nil => exact fun d _ => (List.append_nil d).symm
    | cons p fs ih =>
        intro d hd
        rw [List.foldl_cons, hset d p.1 p.2 ?_, ih, List.append_assoc,
          List.singleton_append]
        · exact (List.nodup_cons.mp h).2
        · rw [List.append_assoc, List.singleton_append]
          exact hd
        · rw [List.map_append, List.map_cons] at hd
          exact fun hmem => (List.nodup_append.mp hd).2.2 p.1 hmem p.1
            (List.mem_cons_self ..) rfl
  exact hfold [] h

/-- A number is no constant. -/
theorem scanConstant_number {s : List Char} {p : Numeral × List Char}
    (h : scanNumber s = some p) : scanConstant F s = none := by
  rw [scanConstant, List.findSome?_eq_none_iff]
  intro q hq
  by_cases hprefix : q.1.isPrefixOf s = true
  · obtain ⟨t, rfl⟩ := List.isPrefixOf_iff_prefix.mp hprefix
    simp only [constants, List.mem_cons, List.not_mem_nil, or_false] at hq
    rcases hq with rfl | rfl | rfl | rfl | rfl | rfl <;> cases h
  · rw [if_neg hprefix]

/-! The equations of `scanOnce`, one for each kind of value. -/

variable {fuel d : Nat}

/-- After a quote the scanner reads a string. -/
theorem scanOnce_string (s : List Char) :
    scanOnce F lim (fuel + 1) d ('"' :: s)
      = match scanString s with
        | some (t, rest) => .ok (.str t, rest)
        | none => .error .decode := by
  rw [scanOnce.eq_def]
  rfl

/-- After an opening brace it reads the members of a dict, one level down. -/
theorem scanOnce_object (s : List Char) :
    scanOnce F lim (fuel + 1) (d + 1) ('{' :: s)
      = match next '}' (skipSpace s) with
        | some rest => .ok (.obj [], rest)
        | none => (scanFields F lim fuel d (skipSpace s)).map
            (fun p => (.obj (dict p.1), p.2)) := by
  rw [scanOnce.eq_def]
  rfl

/-- After an opening bracket it reads the items of a list, one level down. -/
theorem scanOnce_array (s : List Char) :
    scanOnce F lim (fuel + 1) (d + 1) ('[' :: s)
      = match next ']' (skipSpace s) with
        | some rest => .ok (.arr [], rest)
        | none => (scanItems F lim fuel d (skipSpace s)).map
            (fun p => (.arr p.1, p.2)) := by
  rw [scanOnce.eq_def]
  rfl

/-- After anything else it reads a constant, or else a number. -/
theorem scanOnce_other {c : Char} (h : c ≠ '"' ∧ c ≠ '{' ∧ c ≠ '[') (s : List Char) :
    scanOnce F lim (fuel + 1) d (c :: s)
      = match scanConstant F (c :: s) with
        | some p => .ok p
        | none => scanNumeral F lim (c :: s) := by
  rw [scanOnce.eq_def]
  simp only [h.1, h.2.1, h.2.2, if_false]

/-- A number starts as no other value. -/
theorem scanOnce_number {s : List Char} {p : Numeral × List Char}
    (h : scanNumber s = some p) :
    scanOnce F lim (fuel + 1) d s = scanNumeral F lim s := by
  cases s with
  | nil => cases h
  | cons c s =>
      have hother : c ≠ '"' ∧ c ≠ '{' ∧ c ≠ '[' := by
        refine ⟨?_, ?_, ?_⟩ <;> rintro rfl <;> cases h
      rw [scanOnce_other hother, scanConstant_number h]

theorem scanOnce_constant {v : Value φ} {t : List Char}
    (h : (t, v) ∈ constants F) (rest : List Char) :
    scanOnce F lim (fuel + 1) d (t ++ rest) = .ok (v, rest) := by
  simp only [constants, List.mem_cons, Prod.mk.injEq, List.not_mem_nil, or_false] at h
  rcases h with ⟨rfl, rfl⟩ | ⟨rfl, rfl⟩ | ⟨rfl, rfl⟩ | ⟨rfl, rfl⟩ | ⟨rfl, rfl⟩ | ⟨rfl, rfl⟩
  · rfl
  · rfl
  · rfl
  · rfl
  · rfl
  · rfl

/-- A character that can stand first in a value: neither white space nor a
    closing bracket, nor the byte order mark. -/
def Starts (c : Char) : Prop :=
  isSpace c = false ∧ c ≠ ']' ∧ c ≠ '}' ∧ c ≠ byteOrderMark

instance (c : Char) : Decidable (Starts c) :=
  inferInstanceAs (Decidable (_ ∧ _ ∧ _ ∧ _))

/-- A number starts with a character no other value starts with. -/
theorem scanNumber_starts {s : List Char} {p : Numeral × List Char}
    (h : scanNumber s = some p) : ∃ c t, s = c :: t ∧ Starts c := by
  cases s with
  | nil => cases h
  | cons c t =>
      refine ⟨c, t, rfl, ?_, ?_, ?_, ?_⟩
      · by_contra hspace
        simp only [isSpace, Bool.not_eq_false, Bool.or_eq_true, decide_eq_true_eq]
          at hspace
        rcases hspace with ((rfl | rfl) | rfl) | rfl <;> cases h
      · rintro rfl
        cases h
      · rintro rfl
        cases h
      · rintro rfl
        cases h

/-- What is written for a value starts as one. -/
theorem dumps_starts {v : Value φ} (h : WellFormed F lim d v) :
    ∃ c t, dumps F v = c :: t ∧ Starts c := by
  cases h with
  | null => exact ⟨_, _, rfl, by decide⟩
  | bool _ b => cases b <;> exact ⟨_, _, rfl, by decide⟩
  | int _ n =>
      obtain ⟨m, hm, -⟩ := scanNumber_printInt n delimited_nil
      rw [List.append_nil] at hm
      exact scanNumber_starts hm
  | float _ x faithful =>
      rcases faithful.2 with hconst | ⟨n, hn, -⟩
      · simp only [List.mem_cons, List.not_mem_nil, or_false] at hconst
        rcases hconst with heq | heq | heq <;> exact ⟨_, _, heq, by decide⟩
      · exact scanNumber_starts hn
  | str _ s => exact ⟨_, _, rfl, by decide⟩
  | arr _ vs => exact ⟨_, _, rfl, by decide⟩
  | obj _ fs => exact ⟨_, _, rfl, by decide⟩

/-- The value is read back from its text, whatever delimiter follows. -/
def ReadBack (F : Floats φ) (lim : Limits) (d : Nat) (v : Value φ) : Prop :=
  ∀ fuel rest, 2 * (dumps F v).length < fuel → Delimited rest →
    scanOnce F lim fuel d (dumps F v ++ rest) = .ok (v, rest)

/-- A row of texts starts with the first one. -/
theorem commaSep_append (t : List Char) (ts : List (List Char)) (tail : List Char) :
    ∃ u, commaSep (t :: ts) ++ tail = t ++ u := by
  cases ts with
  | nil => exact ⟨tail, rfl⟩
  | cons t' ts =>
      refine ⟨',' :: ' ' :: commaSep (t' :: ts) ++ tail, ?_⟩
      rw [commaSep, List.append_assoc]

/-- Items that are read back one by one are read back in a row. -/
theorem scanItems_dumps {vs : List (Value φ)} (hne : vs ≠ [])
    (hstart : ∀ v ∈ vs, ∃ c t, dumps F v = c :: t ∧ Starts c)
    (hback : ∀ v ∈ vs, ReadBack F lim d v) (rest : List Char) :
    2 * (commaSep (vs.map (dumps F))).length + 1 < fuel →
    scanItems F lim fuel d (commaSep (vs.map (dumps F)) ++ ']' :: rest)
      = .ok (vs, rest) := by
  induction vs generalizing fuel with
  | nil => exact absurd rfl hne
  | cons v vs ih =>
      intro hfuel
      obtain ⟨fuel, rfl⟩ : ∃ n, fuel = n + 1 := ⟨fuel - 1, by omega⟩
      have hv := hback v (List.mem_cons_self ..)
      cases vs with
      | nil =>
          have htext : commaSep ([v].map (dumps F)) = dumps F v := rfl
          rw [htext] at hfuel ⊢
          rw [scanItems, hv fuel (']' :: rest) (by omega)
            (delimited_cons (by decide) rest)]
          simp only [skipSpace_cons (by decide : isSpace ']' = false), next_self]
      | cons w vs =>
          have htext : commaSep ((v :: w :: vs).map (dumps F))
              = dumps F v ++ ',' :: ' ' :: commaSep ((w :: vs).map (dumps F)) := rfl
          rw [htext, List.length_append, List.length_cons, List.length_cons] at hfuel
          obtain ⟨c, t, hw, hc, -, -⟩ := hstart w
            (List.mem_cons_of_mem _ (List.mem_cons_self ..))
          obtain ⟨u, hu⟩ := commaSep_append (dumps F w) (vs.map (dumps F)) (']' :: rest)
          have hskip : skipSpace (commaSep ((w :: vs).map (dumps F)) ++ ']' :: rest)
              = commaSep ((w :: vs).map (dumps F)) ++ ']' :: rest := by
            rw [List.map_cons, hu, hw]
            exact skipSpace_cons hc _
          have hrest := ih (List.cons_ne_nil _ _)
            (fun x hx => hstart x (List.mem_cons_of_mem _ hx))
            (fun x hx => hback x (List.mem_cons_of_mem _ hx))
            (show 2 * (commaSep ((w :: vs).map (dumps F))).length + 1 < fuel by omega)
          -- the item, its comma and its space, and the rest of the row
          rw [htext, List.append_assoc, List.cons_append, List.cons_append, scanItems,
            hv fuel _ (by omega) (delimited_cons (by decide) _)]
          simp only [skipSpace_cons (by decide : isSpace ',' = false),
            next_ne (by decide : ',' ≠ ']'), next_self, skipSpace_space]
          rw [hskip, hrest]
          rfl

/-- The key of a written member is read back, up to its value. -/
theorem scanKey_member {p : List Nat × Value φ} (hk : WellPaired p.1)
    (hstart : ∃ c t, dumps F p.2 = c :: t ∧ Starts c) (rest : List Char) :
    scanKey (memberText F p ++ rest) = some (p.1, dumps F p.2 ++ rest) := by
  obtain ⟨c, t, hv, hc, -, -⟩ := hstart
  have hskip : skipSpace (dumps F p.2 ++ rest) = dumps F p.2 ++ rest := by
    rw [hv]
    exact skipSpace_cons hc _
  rw [scanKey, memberText, List.cons_append, next_self, Option.bind_some,
    List.append_assoc, scanString_print hk, Option.bind_some, List.cons_append,
    skipSpace_cons (by decide), next_self, Option.map_some, List.cons_append,
    skipSpace_space, hskip]

/-- So are members. -/
theorem scanFields_dumps {fs : List (List Nat × Value φ)} (hne : fs ≠ [])
    (hkeys : ∀ p ∈ fs, WellPaired p.1)
    (hstart : ∀ p ∈ fs, ∃ c t, dumps F p.2 = c :: t ∧ Starts c)
    (hback : ∀ p ∈ fs, ReadBack F lim d p.2) (rest : List Char) :
    2 * (commaSep (fs.map (memberText F))).length + 1 < fuel →
    scanFields F lim fuel d (commaSep (fs.map (memberText F)) ++ '}' :: rest)
      = .ok (fs, rest) := by
  induction fs generalizing fuel with
  | nil => exact absurd rfl hne
  | cons p fs ih =>
      intro hfuel
      obtain ⟨fuel, rfl⟩ : ∃ n, fuel = n + 1 := ⟨fuel - 1, by omega⟩
      have hp := hback p (List.mem_cons_self ..)
      have hkey := scanKey_member (hkeys p (List.mem_cons_self ..))
        (hstart p (List.mem_cons_self ..))
      have hlen : (dumps F p.2).length < (memberText F p).length := by
        rw [memberText]
        simp only [List.length_cons, List.length_append]
        omega
      cases fs with
      | nil =>
          have htext : commaSep ([p].map (memberText F)) = memberText F p := rfl
          rw [htext] at hfuel ⊢
          rw [scanFields, hkey]
          simp only []
          rw [hp fuel ('}' :: rest) (by omega) (delimited_cons (by decide) rest)]
          simp only [skipSpace_cons (by decide : isSpace '}' = false), next_self]
      | cons q fs =>
          have htext : commaSep ((p :: q :: fs).map (memberText F))
              = memberText F p ++ ',' :: ' ' :: commaSep ((q :: fs).map (memberText F)) :=
            rfl
          rw [htext, List.length_append, List.length_cons, List.length_cons] at hfuel
          obtain ⟨u, hu⟩ := commaSep_append (memberText F q) (fs.map (memberText F))
            ('}' :: rest)
          have hskip : skipSpace (commaSep ((q :: fs).map (memberText F)) ++ '}' :: rest)
              = commaSep ((q :: fs).map (memberText F)) ++ '}' :: rest := by
            rw [List.map_cons, hu, memberText]
            exact skipSpace_cons (by decide) _
          have hrest := ih (List.cons_ne_nil _ _)
            (fun x hx => hkeys x (List.mem_cons_of_mem _ hx))
            (fun x hx => hstart x (List.mem_cons_of_mem _ hx))
            (fun x hx => hback x (List.mem_cons_of_mem _ hx))
            (show 2 * (commaSep ((q :: fs).map (memberText F))).length + 1 < fuel by omega)
          rw [htext, List.append_assoc, List.cons_append, List.cons_append, scanFields,
            hkey]
          simp only []
          rw [hp fuel _ (by omega) (delimited_cons (by decide) _)]
          simp only [skipSpace_cons (by decide : isSpace ',' = false),
            next_ne (by decide : ',' ≠ '}'), next_self, skipSpace_space]
          rw [hskip, hrest]
          rfl

/-- A constant is read back. -/
theorem readBack_constant {v : Value φ} (h : (dumps F v, v) ∈ constants F) :
    ReadBack F lim d v := by
  intro fuel rest hfuel _
  obtain ⟨fuel, rfl⟩ : ∃ n, fuel = n + 1 := ⟨fuel - 1, by omega⟩
  exact scanOnce_constant h rest

/-- An integer with no more digits than the limit is read back. -/
theorem readBack_int {n : Int} (short : (Nat.toDigits 10 n.natAbs).length ≤ lim.digits) :
    ReadBack F lim d (.int n) := by
  intro fuel rest hfuel hrest
  obtain ⟨fuel, rfl⟩ : ∃ n, fuel = n + 1 := ⟨fuel - 1, by omega⟩
  obtain ⟨m, hm, htail, hint, hwhole⟩ := scanNumber_printInt n hrest
  rw [dumps, scanOnce_number hm, scanNumeral, hm]
  simp only [htail, if_true, hwhole, if_neg (Nat.not_lt_of_le short), hint]

/-- A float that its own text stands for is read back. -/
theorem readBack_float {x : φ} (faithful : F.Faithful x) :
    ReadBack F lim d (.float x) := by
  obtain ⟨hread, hconst | ⟨n, hn, htail⟩⟩ := faithful
  · refine readBack_constant ?_
    simp only [List.mem_cons, List.not_mem_nil, or_false] at hconst
    show (F.write x, Value.float x) ∈ constants F
    rcases hconst with heq | heq | heq
    · rw [heq] at hread ⊢
      rw [← hread]
      simp [constants]
    · rw [heq] at hread ⊢
      rw [← hread]
      simp [constants]
    · rw [heq] at hread ⊢
      rw [← hread]
      simp [constants]
  · intro fuel rest hfuel hrest
    obtain ⟨fuel, rfl⟩ : ∃ n, fuel = n + 1 := ⟨fuel - 1, by omega⟩
    have htext := (scanNumber_text hn).1
    rw [List.append_nil] at htext
    have hscan := scanNumber_append hrest hn
    rw [List.nil_append] at hscan
    rw [dumps, scanOnce_number hscan, scanNumeral, hscan]
    simp only [if_neg htail, htext, hread]

/-- A list is read back if its items are. -/
theorem readBack_arr {vs : List (Value φ)}
    (hstart : ∀ v ∈ vs, ∃ c t, dumps F v = c :: t ∧ Starts c)
    (hback : ∀ v ∈ vs, ReadBack F lim d v) : ReadBack F lim (d + 1) (.arr vs) := by
  intro fuel rest hfuel hrest
  obtain ⟨fuel, rfl⟩ : ∃ n, fuel = n + 1 := ⟨fuel - 1, by omega⟩
  rw [dumps, dumpsItems_eq] at hfuel ⊢
  rw [List.length_cons, List.length_append, List.length_singleton] at hfuel
  rw [List.cons_append, scanOnce_array, List.append_assoc, List.singleton_append]
  cases vs with
  | nil =>
      have htext : commaSep (([] : List (Value φ)).map (dumps F)) ++ ']' :: rest
          = ']' :: rest := rfl
      rw [htext, skipSpace_cons (by decide), next_self]
  | cons v vs =>
      -- the first item stands right behind the bracket, and closes nothing
      obtain ⟨c, t, hv, hc, hbracket, -⟩ := hstart v (List.mem_cons_self ..)
      obtain ⟨u, hu⟩ := commaSep_append (dumps F v) (vs.map (dumps F)) (']' :: rest)
      have hskip : skipSpace (commaSep ((v :: vs).map (dumps F)) ++ ']' :: rest)
          = commaSep ((v :: vs).map (dumps F)) ++ ']' :: rest := by
        rw [List.map_cons, hu, hv]
        exact skipSpace_cons hc _
      have hnext : next ']' (commaSep ((v :: vs).map (dumps F)) ++ ']' :: rest)
          = none := by
        rw [List.map_cons, hu, hv]
        exact next_ne hbracket _
      rw [hskip, hnext]
      simp only []
      rw [scanItems_dumps (List.cons_ne_nil _ _) hstart hback rest (by omega)]
      rfl

/-- A dict with distinct keys is read back if its values are. -/
theorem readBack_obj {fs : List (List Nat × Value φ)} (keys : (fs.map Prod.fst).Nodup)
    (paired : ∀ p ∈ fs, WellPaired p.1)
    (hstart : ∀ p ∈ fs, ∃ c t, dumps F p.2 = c :: t ∧ Starts c)
    (hback : ∀ p ∈ fs, ReadBack F lim d p.2) : ReadBack F lim (d + 1) (.obj fs) := by
  intro fuel rest hfuel hrest
  obtain ⟨fuel, rfl⟩ : ∃ n, fuel = n + 1 := ⟨fuel - 1, by omega⟩
  rw [dumps, dumpsFields_eq] at hfuel ⊢
  rw [List.length_cons, List.length_append, List.length_singleton] at hfuel
  rw [List.cons_append, scanOnce_object, List.append_assoc, List.singleton_append]
  cases fs with
  | nil =>
      have htext : commaSep (([] : List (List Nat × Value φ)).map (memberText F))
          ++ '}' :: rest = '}' :: rest := rfl
      rw [htext, skipSpace_cons (by decide), next_self]
  | cons p fs =>
      obtain ⟨u, hu⟩ := commaSep_append (memberText F p) (fs.map (memberText F))
        ('}' :: rest)
      have hskip : skipSpace (commaSep ((p :: fs).map (memberText F)) ++ '}' :: rest)
          = commaSep ((p :: fs).map (memberText F)) ++ '}' :: rest := by
        rw [List.map_cons, hu, memberText]
        exact skipSpace_cons (by decide) _
      have hnext : next '}' (commaSep ((p :: fs).map (memberText F)) ++ '}' :: rest)
          = none := by
        rw [List.map_cons, hu, memberText]
        exact next_ne (by decide) _
      rw [hskip, hnext]
      simp only []
      rw [scanFields_dumps (List.cons_ne_nil _ _) paired hstart hback rest (by omega)]
      show Except.ok (Value.obj (dict (p :: fs)), rest) = _
      rw [dict_of_nodup keys]

/-- **Every well-formed value is read back.** -/
theorem scanOnce_dumps {v : Value φ} (h : WellFormed F lim d v) :
    ReadBack F lim d v := by
  induction h with
  | null d => exact readBack_constant (by simp [constants, dumps])
  | bool d b =>
      cases b with
      | true => exact readBack_constant (by simp [constants, dumps])
      | false => exact readBack_constant (by simp [constants, dumps])
  | int d n short => exact readBack_int short
  | float d x faithful => exact readBack_float faithful
  | str d s paired =>
      intro fuel rest hfuel hrest
      obtain ⟨fuel, rfl⟩ : ∃ n, fuel = n + 1 := ⟨fuel - 1, by omega⟩
      rw [dumps, List.cons_append, scanOnce_string, scanString_print paired]
  | arr d vs items ih => exact readBack_arr (fun v hv => dumps_starts (items v hv)) ih
  | obj d fs keys paired values ih =>
      exact readBack_obj keys paired (fun p hp => dumps_starts (values p hp)) ih

/-- **Every well-formed value is loaded from its text.** -/
theorem loads_dumps {v : Value φ} (h : WellFormed F lim lim.depth v) :
    loads F lim (dumps F v) = .ok v := by
  obtain ⟨c, t, hv, hc, -, -, hbom⟩ := dumps_starts h
  have hskip : skipSpace (dumps F v) = dumps F v := by
    rw [hv]
    exact skipSpace_cons hc _
  have hhead : (dumps F v).head? ≠ some byteOrderMark := by
    rw [hv, List.head?_cons, Ne, Option.some.injEq]
    exact hbom
  have hback := scanOnce_dumps h (fuelOf (dumps F v)) [] (Nat.lt_succ_self _)
    delimited_nil
  rw [List.append_nil] at hback
  rw [loads, if_neg hhead, hskip, hback]
  rfl

theorem commaSep_printable {ts : List (List Char)} (h : ∀ t ∈ ts, Printable t) :
    Printable (commaSep ts) := by
  induction ts with
  | nil => exact fun _ hc => by cases hc
  | cons t ts ih =>
      have ht := h t (List.mem_cons_self ..)
      cases ts with
      | nil => exact ht
      | cons u ts =>
          have hrest := ih (fun x hx => h x (List.mem_cons_of_mem _ hx))
          exact ht.append (Printable.cons (by decide) (Printable.cons (by decide) hrest))

/-- **What is written for a well-formed value is ASCII text.** -/
theorem dumps_printable {v : Value φ} (h : WellFormed F lim d v) :
    Printable (dumps F v) := by
  have hclose : ∀ {c : Char}, 0x20 ≤ c.toNat ∧ c.toNat ≤ 0x7E → Printable [c] :=
    fun hc => Printable.cons hc (fun _ hmem => by cases hmem)
  induction h with
  | null d => exact (by decide : Printable ['n', 'u', 'l', 'l'])
  | bool d b =>
      cases b with
      | true => exact (by decide : Printable ['t', 'r', 'u', 'e'])
      | false => exact (by decide : Printable ['f', 'a', 'l', 's', 'e'])
  | int d n => exact printInt_printable n
  | float d x faithful =>
      rcases faithful.2 with hconst | ⟨n, hn, -⟩
      · simp only [List.mem_cons, List.not_mem_nil, or_false] at hconst
        rw [dumps]
        rcases hconst with heq | heq | heq
        · rw [heq]
          decide
        · rw [heq]
          decide
        · rw [heq]
          decide
      · exact scanNumber_printable hn
  | str d s => exact Printable.cons (by decide) (printBody_printable s)
  | arr d vs items ih =>
      rw [dumps, dumpsItems_eq]
      refine Printable.cons (by decide) ((commaSep_printable ?_).append (hclose (by decide)))
      intro t ht
      obtain ⟨v, hv, rfl⟩ := List.mem_map.mp ht
      exact ih v hv
  | obj d fs keys paired values ih =>
      rw [dumps, dumpsFields_eq]
      refine Printable.cons (by decide) ((commaSep_printable ?_).append (hclose (by decide)))
      intro t ht
      obtain ⟨p, hp, rfl⟩ := List.mem_map.mp ht
      rw [memberText]
      exact Printable.cons (by decide) ((printBody_printable p.1).append
        (Printable.cons (by decide) (Printable.cons (by decide) (ih p hp))))

end RoundTrip

/-! ## What is read is well formed -/

section Sound

variable {F : Floats φ} {lim : Limits}

theorem next_length {d : Char} {s rest : List Char} (h : next d s = some rest) :
    s.length = rest.length + 1 := by
  cases s with
  | nil => cases h
  | cons c s =>
      rw [next] at h
      split_ifs at h
      rw [← Option.some.inj h, List.length_cons]

theorem skipSpace_length (s : List Char) : (skipSpace s).length ≤ s.length :=
  (List.dropWhile_sublist _).length_le

/-- A key that is read is well paired, and off the front of the text. -/
theorem scanKey_sound {s rest : List Char} {k : List Nat}
    (h : scanKey s = some (k, rest)) : WellPaired k ∧ rest.length < s.length := by
  obtain ⟨t, ht, h⟩ := Option.bind_eq_some_iff.mp h
  obtain ⟨p, hp, h⟩ := Option.bind_eq_some_iff.mp h
  obtain ⟨u, hu, heq⟩ := Option.map_eq_some_iff.mp h
  obtain ⟨rfl, rfl⟩ := Prod.mk.inj heq
  obtain ⟨hpaired, hlen⟩ := scanString_wellPaired hp
  have hnext := next_length ht
  have hcolon := next_length hu
  have hskip := skipSpace_length p.2
  have hskip' := skipSpace_length u
  exact ⟨hpaired, by omega⟩

/-- The members of a dict are members of the list, each key once. -/
theorem dict_sound (fs : List (List Nat × Value φ)) :
    ((dict fs).map Prod.fst).Nodup ∧ ∀ p ∈ dict fs, p ∈ fs := by
  have hset : ∀ (d : List (List Nat × Value φ)) (k : List Nat) (v : Value φ),
      ∀ p ∈ setItem k v d, p = (k, v) ∨ p ∈ d := by
    intro d k v p hp
    induction d with
    | nil => exact Or.inl (List.mem_singleton.mp hp)
    | cons q d ih =>
        rw [setItem] at hp
        split_ifs at hp
        · rcases List.mem_cons.mp hp with heq | hmem
          · exact Or.inl heq
          · exact Or.inr (List.mem_cons_of_mem _ hmem)
        · rcases List.mem_cons.mp hp with heq | hmem
          · rw [heq]
            exact Or.inr (List.mem_cons_self ..)
          · rcases ih hmem with heq | hold
            · exact Or.inl heq
            · exact Or.inr (List.mem_cons_of_mem _ hold)
  have hnodup : ∀ (d : List (List Nat × Value φ)) (k : List Nat) (v : Value φ),
      (d.map Prod.fst).Nodup → ((setItem k v d).map Prod.fst).Nodup := by
    intro d k v hd
    induction d with
    | nil => exact List.nodup_cons.mpr ⟨List.not_mem_nil, List.nodup_nil⟩
    | cons q d ih =>
        obtain ⟨hq, hd⟩ := List.nodup_cons.mp hd
        rw [setItem]
        split_ifs with heq
        · rw [List.map_cons, ← heq]
          exact List.nodup_cons.mpr ⟨hq, hd⟩
        · refine List.nodup_cons.mpr ⟨?_, ih hd⟩
          intro hmem
          obtain ⟨p, hp, hfst⟩ := List.mem_map.mp hmem
          rcases hset d k v p hp with rfl | hold
          · exact heq hfst.symm
          · exact hq (List.mem_map.mpr ⟨p, hold, hfst⟩)
  -- the dict so far, and the members that are still to come
  have hfold : ∀ d : List (List Nat × Value φ), (d.map Prod.fst).Nodup →
      ((fs.foldl (fun d p => setItem p.1 p.2 d) d).map Prod.fst).Nodup
        ∧ ∀ p ∈ fs.foldl (fun d p => setItem p.1 p.2 d) d, p ∈ d ∨ p ∈ fs := by
    induction fs with
    | nil => exact fun d hd => ⟨hd, fun p hp => Or.inl hp⟩
    | cons q fs ih =>
        intro d hd
        obtain ⟨hkeys, hmem⟩ := ih _ (hnodup d q.1 q.2 hd)
        refine ⟨hkeys, fun p hp => ?_⟩
        rcases hmem p hp with hin | hin
        · rcases hset d q.1 q.2 p hin with heq | hold
          · rw [heq]
            exact Or.inr (List.mem_cons_self ..)
          · exact Or.inl hold
        · exact Or.inr (List.mem_cons_of_mem _ hin)
  obtain ⟨hkeys, hmem⟩ := hfold [] List.nodup_nil
  refine ⟨hkeys, fun p hp => ?_⟩
  rcases hmem p hp with hin | hin
  · exact absurd hin List.not_mem_nil
  · exact hin

/-- A scan of `s` takes something good off its front, and runs out of fuel only
    if it has no more of it than `need`. -/
structure Scans {α : Type} (good : α → Prop) (fuel need : Nat) (s : List Char)
    (r : Except Failure (α × List Char)) : Prop where
  taken : ∀ p, r = .ok p → good p.1 ∧ p.2.length < s.length
  enough : r = .error .fuel → fuel ≤ need

section Scans

variable {α β : Type} {good : α → Prop} {fuel need : Nat} {s : List Char}

/-- A scan that found something good and took some of the text. -/
theorem Scans.ok {a : α} {rest : List Char} (hgood : good a)
    (hlen : rest.length < s.length) : Scans good fuel need s (.ok (a, rest)) where
  taken := by
    rintro p hp
    rw [← Except.ok.inj hp]
    exact ⟨hgood, hlen⟩
  enough := by
    intro h
    cases h

/-- A scan that failed, for want of fuel only if it had too little. -/
theorem Scans.error {e : Failure} (he : e = .fuel → fuel ≤ need) :
    Scans good fuel need s (.error e) where
  taken := by
    intro p hp
    cases hp
  enough := fun h => he (Except.error.inj h)

/-- A scan further down the text, and what is made of its result. -/
theorem Scans.map {f : α → β} {good' : β → Prop} {fuel' need' : Nat} {s' : List Char}
    {r : Except Failure (α × List Char)} (h : Scans good fuel need s r)
    (hgood : ∀ a, good a → good' (f a)) (hlen : s.length ≤ s'.length)
    (hneed : fuel ≤ need → fuel' ≤ need') :
    Scans good' fuel' need' s' (r.map (fun p => (f p.1, p.2))) := by
  cases r with
  | error e => exact Scans.error (fun he => hneed (h.enough (by rw [he])))
  | ok p =>
      obtain ⟨ha, hp⟩ := h.taken p rfl
      exact Scans.ok (hgood p.1 ha) (Nat.lt_of_lt_of_le hp hlen)

end Scans

/-- Numerals and constants; no fuel is spent on them. -/
theorem scanOther_sound (hF : ∀ t, F.Faithful (F.read t)) (fuel d : Nat)
    (s : List Char) :
    Scans (WellFormed F lim d) (fuel + 1) (2 * s.length) s
      (match scanConstant F s with
        | some p => .ok p
        | none => scanNumeral F lim s) := by
  cases hconst : scanConstant F s with
  | some p =>
      obtain ⟨q, hq, heq⟩ := List.exists_of_findSome?_eq_some hconst
      by_cases hprefix : q.1.isPrefixOf s = true
      · rw [if_pos hprefix, Option.some.injEq] at heq
        obtain ⟨t, rfl⟩ := List.isPrefixOf_iff_prefix.mp hprefix
        rw [List.drop_left] at heq
        rw [← heq]
        have hshort : ∀ r : List Char, r ≠ [] → t.length < (r ++ t).length := by
          intro r hr
          have hpos := List.length_pos_iff.mpr hr
          rw [List.length_append]
          omega
        simp only [constants, List.mem_cons, List.not_mem_nil, or_false] at hq
        rcases hq with rfl | rfl | rfl | rfl | rfl | rfl
        · exact Scans.ok (WellFormed.null d) (hshort _ (List.cons_ne_nil _ _))
        · exact Scans.ok (WellFormed.bool d true) (hshort _ (List.cons_ne_nil _ _))
        · exact Scans.ok (WellFormed.bool d false) (hshort _ (List.cons_ne_nil _ _))
        · exact Scans.ok (WellFormed.float d _ (hF _)) (hshort _ (List.cons_ne_nil _ _))
        · exact Scans.ok (WellFormed.float d _ (hF _)) (hshort _ (List.cons_ne_nil _ _))
        · exact Scans.ok (WellFormed.float d _ (hF _)) (hshort _ (List.cons_ne_nil _ _))
      · rw [if_neg hprefix] at heq
        cases heq
  | none =>
      show Scans _ _ _ _ (scanNumeral F lim s)
      rw [scanNumeral]
      cases hn : scanNumber s with
      | none => exact Scans.error (fun h => by cases h)
      | some p =>
          obtain ⟨n, rest⟩ := p
          have hlen := (scanNumber_text hn).2
          show Scans _ _ _ _ (if n.tail = [] then
            if lim.digits < n.whole.length then .error .digits
            else .ok (Value.int n.int, rest)
            else .ok (Value.float (F.read n.text), rest))
          split_ifs with htail hdigits
          · exact Scans.error (fun h => by cases h)
          · refine Scans.ok (WellFormed.int d n.int ?_) hlen
            exact Nat.le_trans (scanNumber_digits hn) (Nat.le_of_not_lt hdigits)
          · exact Scans.ok (WellFormed.float d _ (hF _)) hlen

/-- A value at the end of the row or before another part of it. -/
theorem row_sound {α : Type} (good : α → Prop) {fuel : Nat} {s t : List Char}
    (ht : t.length < s.length) {a : α} (ha : good a) (close : Char)
    {scan : List Char → Except Failure (List α × List Char)}
    (ih : ∀ s, Scans (∀ b ∈ ·, good b) fuel (2 * s.length + 1) s (scan s)) :
    Scans (∀ b ∈ ·, good b) (fuel + 1) (2 * s.length + 1) s
      (match next close (skipSpace t) with
        | some rest => .ok ([a], rest)
        | none =>
            match next ',' (skipSpace t) with
            | some u => (scan (skipSpace u)).map (fun p => (a :: p.1, p.2))
            | none => .error .decode) := by
  have hskip := skipSpace_length t
  cases hclose : next close (skipSpace t) with
  | some rest =>
      have hrest := next_length hclose
      exact Scans.ok (fun b hb => List.mem_singleton.mp hb ▸ ha) (by omega)
  | none =>
      cases hcomma : next ',' (skipSpace t) with
      | none => exact Scans.error (fun h => by cases h)
      | some u =>
          have hu := next_length hcomma
          have hskip' := skipSpace_length u
          refine (ih (skipSpace u)).map ?_ (by omega) (by omega)
          intro as has b hb
          rcases List.mem_cons.mp hb with rfl | hmem
          · exact ha
          · exact has b hmem

/-- What the scanners of values, items and members do with a given fuel. -/
structure Scanning (F : Floats φ) (lim : Limits) (fuel : Nat) : Prop where
  once : ∀ d s, Scans (WellFormed F lim d) fuel (2 * s.length) s
    (scanOnce F lim fuel d s)
  items : ∀ d s, Scans (∀ v ∈ ·, WellFormed F lim d v) fuel (2 * s.length + 1) s
    (scanItems F lim fuel d s)
  fields : ∀ d s, Scans (∀ p ∈ ·, WellPaired p.1 ∧ WellFormed F lim d p.2) fuel
    (2 * s.length + 1) s (scanFields F lim fuel d s)

/-- An object: its braces are a level, and take two characters off the text. -/
theorem scanObject_sound {fuel : Nat} (ih : Scanning F lim fuel) (d : Nat)
    (s : List Char) :
    Scans (WellFormed F lim d) (fuel + 1) (2 * (s.length + 1)) ('{' :: s)
      (scanOnce F lim (fuel + 1) d ('{' :: s)) := by
  have hskip := skipSpace_length s
  cases d with
  | zero =>
      rw [scanOnce.eq_def]
      exact Scans.error (fun h => by cases h)
  | succ d =>
      rw [scanOnce_object]
      cases hnext : next '}' (skipSpace s) with
      | some rest =>
          have hrest := next_length hnext
          refine Scans.ok (WellFormed.obj d [] List.nodup_nil ?_ ?_) ?_
          · exact fun p hp => absurd hp List.not_mem_nil
          · exact fun p hp => absurd hp List.not_mem_nil
          · rw [List.length_cons]
            omega
      | none =>
          refine (ih.fields d (skipSpace s)).map
            (f := fun fs => Value.obj (dict fs)) ?_ ?_ ?_
          · -- a key that is there twice is kept once
            intro fs hfs
            obtain ⟨hkeys, hmem⟩ := dict_sound fs
            exact WellFormed.obj d _ hkeys (fun p hp => (hfs p (hmem p hp)).1)
              (fun p hp => (hfs p (hmem p hp)).2)
          · rw [List.length_cons]
            omega
          · omega

/-- Lists: what is read is well formed, given that the items are. -/
theorem scanArray_sound {fuel : Nat} (ih : Scanning F lim fuel) (d : Nat)
    (s : List Char) :
    Scans (WellFormed F lim d) (fuel + 1) (2 * (s.length + 1)) ('[' :: s)
      (scanOnce F lim (fuel + 1) d ('[' :: s)) := by
  have hskip := skipSpace_length s
  cases d with
  | zero =>
      rw [scanOnce.eq_def]
      exact Scans.error (fun h => by cases h)
  | succ d =>
      rw [scanOnce_array]
      cases hnext : next ']' (skipSpace s) with
      | some rest =>
          have hrest := next_length hnext
          refine Scans.ok (WellFormed.arr d [] ?_) ?_
          · exact fun v hv => absurd hv List.not_mem_nil
          · rw [List.length_cons]
            omega
      | none =>
          refine (ih.items d (skipSpace s)).map ?_ ?_ ?_
          · exact fun vs hvs => WellFormed.arr d vs hvs
          · rw [List.length_cons]
            omega
          · omega

/-- One value: what is read is well formed, by its first character. -/
theorem scanOnce_sound (hF : ∀ t, F.Faithful (F.read t)) {fuel : Nat}
    (ih : Scanning F lim fuel) (d : Nat) (s : List Char) :
    Scans (WellFormed F lim d) (fuel + 1) (2 * s.length) s
      (scanOnce F lim (fuel + 1) d s) := by
  cases s with
  | nil =>
      rw [scanOnce]
      exact Scans.error (fun h => by cases h)
  | cons c s =>
      by_cases hquote : c = '"'
      · rw [hquote, scanOnce_string]
        cases hs : scanString s with
        | none => exact Scans.error (fun h => by cases h)
        | some p =>
            obtain ⟨hpaired, hlen⟩ := scanString_wellPaired hs
            exact Scans.ok (WellFormed.str d _ hpaired) (Nat.lt_succ_of_lt hlen)
      by_cases hbrace : c = '{'
      · rw [hbrace]
        exact scanObject_sound ih d s
      by_cases hbracket : c = '['
      · rw [hbracket]
        exact scanArray_sound ih d s
      rw [scanOnce_other ⟨hquote, hbrace, hbracket⟩]
      exact scanOther_sound hF fuel d (c :: s)

/-- The items of a list: each one read is well formed. -/
theorem scanItems_sound {fuel : Nat} (ih : Scanning F lim fuel) (d : Nat)
    (s : List Char) :
    Scans (∀ v ∈ ·, WellFormed F lim d v) (fuel + 1) (2 * s.length + 1) s
      (scanItems F lim (fuel + 1) d s) := by
  have honce := ih.once d s
  rw [scanItems]
  cases hv : scanOnce F lim fuel d s with
  | error e =>
      rw [hv] at honce
      refine Scans.error (fun he => ?_)
      have hfuel := honce.enough (by rw [he])
      omega
  | ok p =>
      rw [hv] at honce
      obtain ⟨hgood, hlen⟩ := honce.taken p rfl
      exact row_sound (WellFormed F lim d) hlen hgood ']' (ih.items d)

/-- The members of a dict: each one read is well formed. -/
theorem scanFields_sound {fuel : Nat} (ih : Scanning F lim fuel) (d : Nat)
    (s : List Char) :
    Scans (∀ p ∈ ·, WellPaired p.1 ∧ WellFormed F lim d p.2) (fuel + 1)
      (2 * s.length + 1) s (scanFields F lim (fuel + 1) d s) := by
  rw [scanFields]
  cases hk : scanKey s with
  | none => exact Scans.error (fun h => by cases h)
  | some q =>
      obtain ⟨hpaired, hkey⟩ := scanKey_sound hk
      have honce := ih.once d q.2
      show Scans _ _ _ _ (match scanOnce F lim fuel d q.2 with
        | .error e => _
        | .ok (v, t) => _)
      cases hv : scanOnce F lim fuel d q.2 with
      | error e =>
          rw [hv] at honce
          refine Scans.error (fun he => ?_)
          have hfuel := honce.enough (by rw [he])
          omega
      | ok p =>
          rw [hv] at honce
          obtain ⟨hgood, hlen⟩ := honce.taken p rfl
          exact row_sound (fun m => WellPaired m.1 ∧ WellFormed F lim d m.2)
            (a := (q.1, p.1)) (Nat.lt_trans hlen hkey) ⟨hpaired, hgood⟩ '}'
            (ih.fields d)

/-- **Whatever is scanned is well formed, and the fuel suffices.** -/
theorem scan_sound (lim : Limits) (hF : ∀ t, F.Faithful (F.read t)) (fuel : Nat) :
    Scanning F lim fuel := by
  induction fuel with
  | zero =>
      refine ⟨fun d s => ?_, fun d s => ?_, fun d s => ?_⟩
      · rw [scanOnce]
        exact Scans.error (fun _ => Nat.zero_le _)
      · rw [scanItems]
        exact Scans.error (fun _ => Nat.zero_le _)
      · rw [scanFields]
        exact Scans.error (fun _ => Nat.zero_le _)
  | succ fuel ih =>
      exact ⟨scanOnce_sound hF ih, scanItems_sound ih, scanFields_sound ih⟩

/-- **Only well-formed values are loaded.** -/
theorem loads_wellFormed (hF : ∀ t, F.Faithful (F.read t)) {s : List Char}
    {v : Value φ} (h : loads F lim s = .ok v) : WellFormed F lim lim.depth v := by
  rw [loads] at h
  split_ifs at h
  have hscan := (scan_sound lim hF (fuelOf (skipSpace s))).once lim.depth
    (skipSpace s)
  cases hv : scanOnce F lim (fuelOf (skipSpace s)) lim.depth (skipSpace s) with
  | error e =>
      rw [hv] at h
      cases h
  | ok p =>
      rw [hv] at h hscan
      simp only [] at h
      split_ifs at h
      rw [← Except.ok.inj h]
      exact (hscan.taken p rfl).1

/-- **The fuel suffices for every text.** -/
theorem loads_fuel (hF : ∀ t, F.Faithful (F.read t)) (s : List Char) :
    loads F lim s ≠ .error .fuel := by
  intro h
  rw [loads] at h
  split_ifs at h with hbom
  · cases h
  have hscan := (scan_sound lim hF (fuelOf (skipSpace s))).once lim.depth
    (skipSpace s)
  cases hv : scanOnce F lim (fuelOf (skipSpace s)) lim.depth (skipSpace s) with
  | error e =>
      rw [hv] at h hscan
      have henough := hscan.enough (by rw [Except.error.inj h])
      rw [fuelOf] at henough
      omega
  | ok p =>
      rw [hv] at h
      simp only [] at h
      split_ifs at h
      cases h

end Sound

end JsonText
