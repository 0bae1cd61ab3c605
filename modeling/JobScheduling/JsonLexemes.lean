import Mathlib.Algebra.Group.Nat.Defs
import Mathlib.Data.List.Chain

/-! # Strings and numbers of JSON texts

    The lexemes of JSON that have a grammar of their own, as Python's `json`
    module prints and scans them, over the decoded text.

    * A string is its list of code points, lone surrogates included.  It is
      printed in ASCII, code points past U+FFFF as two `\u` escapes; a scanner
      joins two escapes that make a pair.  `scanString_print`: what is printed
      is scanned back, for every string in which no surrogates make a pair
      (`WellPaired`); `scanString_wellPaired`: only such strings are scanned;
      `printBody_printable`: whatever the string, ASCII is printed.
    * A number is an optional sign, a whole part, a fraction and an exponent
      (`Numeral`).  `scanNumber_text`: the scanner takes a numeral off the
      text; `scanNumber_append`: and the same one whatever delimiter follows.
      `scanNumber_printInt`: decimal digits are scanned back. -/

namespace JsonText

/-! ## Code points and their units -/

def isHigh (u : Nat) : Bool := decide (0xD800 ≤ u ∧ u < 0xDC00)
def isLow (u : Nat) : Bool := decide (0xDC00 ≤ u ∧ u < 0xE000)

/-- The code point of a surrogate pair. -/
def pair (h l : Nat) : Nat := 0x10000 + (h - 0xD800) * 0x400 + (l - 0xDC00)

/-- The escapes a code point is printed as. -/
def units (c : Nat) : List Nat :=
  if c < 0x10000 then [c]
  else [0xD800 + (c - 0x10000) / 0x400, 0xDC00 + (c - 0x10000) % 0x400]

/-- Join the surrogates that make a pair. -/
def joinPairs : List Nat → List Nat
  | h :: l :: rest =>
      if isHigh h && isLow l then pair h l :: joinPairs rest
      else h :: joinPairs (l :: rest)
  | us => us

/-- The second of two neighbours is no low surrogate after a high one. -/
def Apart (a b : Nat) : Prop := ¬ (isHigh a = true ∧ isLow b = true)

/-- A string of Unicode code points in which no surrogates make a pair. -/
structure WellPaired (s : List Nat) : Prop where
  bound : ∀ c ∈ s, c < 0x110000
  apart : s.IsChain Apart

theorem isHigh_iff {u : Nat} : isHigh u = true ↔ 0xD800 ≤ u ∧ u < 0xDC00 := by
  rw [isHigh, decide_eq_true_eq]

theorem isLow_iff {u : Nat} : isLow u = true ↔ 0xDC00 ≤ u ∧ u < 0xE000 := by
  rw [isLow, decide_eq_true_eq]

/-- A pair of surrogates stands for a code point past U+FFFF. -/
theorem pair_range {h l : Nat} (hh : isHigh h = true) (hl : isLow l = true) :
    0x10000 ≤ pair h l ∧ pair h l < 0x110000 := by
  rw [isHigh_iff] at hh
  rw [isLow_iff] at hl
  unfold pair
  constructor
  · omega
  · omega

/-- A code point past U+FFFF is printed as the two surrogates of its pair. -/
theorem pair_units {c : Nat} (h : 0x10000 ≤ c) (hc : c < 0x110000) :
    ∃ u v, units c = [u, v] ∧ isHigh u = true ∧ isLow v = true ∧ pair u v = c := by
  refine ⟨0xD800 + (c - 0x10000) / 0x400, 0xDC00 + (c - 0x10000) % 0x400, ?_, ?_, ?_, ?_⟩
  · rw [units, if_neg (Nat.not_lt_of_le h)]
  · exact isHigh_iff.mpr ⟨by omega, by omega⟩
  · exact isLow_iff.mpr ⟨by omega, by omega⟩
  · unfold pair
    omega

/-- A high surrogate and a low one after it are joined. -/
theorem joinPairs_pair {h l : Nat} (hh : isHigh h = true) (hl : isLow l = true)
    (rest : List Nat) : joinPairs (h :: l :: rest) = pair h l :: joinPairs rest := by
  rw [joinPairs, hh, hl]
  rfl

/-- Any other neighbours stay apart. -/
theorem joinPairs_apart {u v : Nat} (h : Apart u v) (rest : List Nat) :
    joinPairs (u :: v :: rest) = u :: joinPairs (v :: rest) := by
  have hcond : ¬ (isHigh u && isLow v) = true := by
    rw [Bool.and_eq_true]
    exact h
  rw [joinPairs, if_neg hcond]

/-- The first unit of a code point makes a pair with what stands before it only
    where the code point does. -/
theorem apart_units {a c : Nat} (h : Apart a c) (hc : c < 0x110000) :
    ∃ u us, units c = u :: us ∧ Apart a u := by
  by_cases hbig : 0x10000 ≤ c
  · obtain ⟨u, v, heq, hu, -, -⟩ := pair_units hbig hc
    refine ⟨u, [v], heq, ?_⟩
    rintro ⟨-, hlow⟩
    rw [isHigh_iff] at hu
    rw [isLow_iff] at hlow
    omega
  · refine ⟨c, [], ?_, h⟩
    rw [units, if_pos (Nat.lt_of_not_le hbig)]

/-- **Joining undoes splitting.** -/
theorem joinPairs_units {s : List Nat} (hs : WellPaired s) :
    joinPairs (s.flatMap units) = s := by
  obtain ⟨hbound, hapart⟩ := hs
  induction s with
  | nil => rfl
  | cons c s ih =>
      have hc := hbound c (List.mem_cons_self ..)
      have hrest : joinPairs (s.flatMap units) = s :=
        ih (fun d hd => hbound d (List.mem_cons_of_mem _ hd)) hapart.of_cons
      rw [List.flatMap_cons]
      by_cases hbig : 0x10000 ≤ c
      · obtain ⟨u, v, heq, hu, hv, hpair⟩ := pair_units hbig hc
        rw [heq, List.cons_append, List.cons_append, List.nil_append,
          joinPairs_pair hu hv, hpair, hrest]
      · rw [units, if_pos (Nat.lt_of_not_le hbig), List.singleton_append]
        cases s with
        | nil => rfl
        | cons d s =>
            have hd := hbound d (List.mem_cons_of_mem _ (List.mem_cons_self ..))
            obtain ⟨u, us, heq, hu⟩ :=
              apart_units (List.isChain_cons_cons.mp hapart).1 hd
            rw [List.flatMap_cons, heq, List.cons_append] at hrest ⊢
            rw [joinPairs_apart hu, hrest]

/-- Whatever is joined, no surrogates are left that make a pair. -/
theorem joinPairs_wellPaired {us : List Nat} (h : ∀ u ∈ us, u < 0x110000) :
    WellPaired (joinPairs us) := by
  -- the head is that of `us`, or no surrogate at all
  suffices hjoin : WellPaired (joinPairs us)
      ∧ ∀ v ∈ (joinPairs us).head?, us.head? = some v ∨ isLow v = false from hjoin.1
  induction us using joinPairs.induct with
  | case1 u v rest hpair ih =>
      -- the joined code point is no surrogate, whatever follows it
      rw [Bool.and_eq_true] at hpair
      obtain ⟨⟨hbound, hapart⟩, -⟩ := ih (fun w hw =>
        h w (List.mem_cons_of_mem _ (List.mem_cons_of_mem _ hw)))
      have hrange := pair_range hpair.1 hpair.2
      rw [joinPairs_pair hpair.1 hpair.2]
      refine ⟨⟨?_, ?_⟩, ?_⟩
      · intro c hc
        rcases List.mem_cons.mp hc with heq | hmem
        · rw [heq]
          exact hrange.2
        · exact hbound c hmem
      · refine List.isChain_cons.mpr ⟨?_, hapart⟩
        rintro w - ⟨hhigh, -⟩
        rw [isHigh_iff] at hhigh
        omega
      · intro w hw
        rw [List.head?_cons, Option.mem_some] at hw
        rw [← hw]
        refine Or.inr ?_
        rw [← Bool.not_eq_true, isLow_iff]
        omega
  | case2 u v rest hpair ih =>
      -- what follows `u` is `v`, or has been joined to no surrogate
      obtain ⟨⟨hbound, hapart⟩, hhead⟩ := ih (fun w hw =>
        h w (List.mem_cons_of_mem _ hw))
      have huv : Apart u v := by
        rw [Bool.and_eq_true] at hpair
        exact hpair
      rw [joinPairs_apart huv]
      refine ⟨⟨?_, ?_⟩, fun w hw => Or.inl hw⟩
      · intro c hc
        rcases List.mem_cons.mp hc with rfl | hmem
        · exact h c (List.mem_cons_self ..)
        · exact hbound c hmem
      · refine List.isChain_cons.mpr ⟨?_, hapart⟩
        intro w hw
        rcases hhead w hw with heq | hlow
        · rw [List.head?_cons, Option.some.injEq] at heq
          rw [← heq]
          exact huv
        · rintro ⟨-, hlow'⟩
          rw [hlow] at hlow'
          cases hlow'
  | case3 us hshort =>
      have heq : joinPairs us = us := by
        rw [joinPairs]
        exact hshort
      rw [heq]
      refine ⟨⟨h, ?_⟩, fun w hw => Or.inl hw⟩
      cases us with
      | nil => exact List.isChain_nil
      | cons u us =>
          cases us with
          | nil => exact List.isChain_singleton u
          | cons v us => exact absurd rfl (hshort u v us)

/-! ## Strings -/

/-- The value of a hexadecimal digit, in either case. -/
def hexValue (c : Char) : Option Nat :=
  if 48 ≤ c.toNat ∧ c.toNat ≤ 57 then some (c.toNat - 48)
  else if 97 ≤ c.toNat ∧ c.toNat ≤ 102 then some (c.toNat - 87)
  else if 65 ≤ c.toNat ∧ c.toNat ≤ 70 then some (c.toNat - 55)
  else none

/-- The four digits of a `\u` escape. -/
def hex4 (a b c d : Char) : Option Nat :=
  match hexValue a, hexValue b, hexValue c, hexValue d with
  | some w, some x, some y, some z => some (((w * 16 + x) * 16 + y) * 16 + z)
  | _, _, _, _ => none

/-- What stands after the backslash of any other escape. -/
def escapeOf : Char → Option Nat
  | '"' => some 0x22
  | '\\' => some 0x5C
  | '/' => some 0x2F
  | 'b' => some 0x08
  | 'f' => some 0x0C
  | 'n' => some 0x0A
  | 'r' => some 0x0D
  | 't' => some 0x09
  | _ => none

def consUnit (u : Nat) (p : List Nat × List Char) : List Nat × List Char :=
  (u :: p.1, p.2)

/-- The units of a string, from behind its opening quote, and the text behind
    its closing one. -/
def scanUnits : List Char → Option (List Nat × List Char)
  | [] => none
  | c :: rest =>
      if c = '"' then some ([], rest)
      else if c = '\\' then
        match rest with
        | [] => none
        | e :: rest₁ =>
            if e = 'u' then
              -- `\u` takes four digits, and no fewer
              match rest₁ with
              | w :: x :: y :: z :: rest₂ =>
                  match hex4 w x y z with
                  | some u => (scanUnits rest₂).map (consUnit u)
                  | none => none
              | _ => none
            else
              match escapeOf e with
              | some u => (scanUnits rest₁).map (consUnit u)
              | none => none
      -- a control character has to be escaped
      else if c.toNat < 0x20 then none
      else (scanUnits rest).map (consUnit c.toNat)

/-- A string, from behind its opening quote. -/
def scanString (s : List Char) : Option (List Nat × List Char) :=
  (scanUnits s).map (fun p => (joinPairs p.1, p.2))

/-- `f"{u:04x}"`. -/
def hexDigits (u : Nat) : List Char :=
  [Nat.digitChar (u / 4096 % 16), Nat.digitChar (u / 256 % 16),
    Nat.digitChar (u / 16 % 16), Nat.digitChar (u % 16)]

def printUnit (u : Nat) : List Char :=
  if u = 0x22 then ['\\', '"']
  else if u = 0x5C then ['\\', '\\']
  else if u = 0x0A then ['\\', 'n']
  else if u = 0x0D then ['\\', 'r']
  else if u = 0x09 then ['\\', 't']
  else if u = 0x0C then ['\\', 'f']
  else if u = 0x08 then ['\\', 'b']
  else if 0x20 ≤ u ∧ u ≤ 0x7E then [Char.ofNat u]
  else '\\' :: 'u' :: hexDigits u

/-- A string from behind its opening quote to its closing one. -/
def printBody (s : List Nat) : List Char :=
  (s.flatMap units).flatMap printUnit ++ ['"']

/-- A printed hexadecimal digit is read back. -/
theorem hexValue_digitChar : ∀ n, n < 16 → hexValue (Nat.digitChar n) = some n := by
  decide

theorem hexValue_lt {c : Char} {n : Nat} (h : hexValue c = some n) : n < 16 := by
  rw [hexValue] at h
  split_ifs at h <;> cases h <;> omega

/-- The four digits of a unit are read back. -/
theorem hex4_hexDigits {u : Nat} (h : u < 0x10000) :
    hex4 (Nat.digitChar (u / 4096 % 16)) (Nat.digitChar (u / 256 % 16))
      (Nat.digitChar (u / 16 % 16)) (Nat.digitChar (u % 16)) = some u := by
  have hmod : ∀ n : Nat, n % 16 < 16 := fun n => Nat.mod_lt n (by decide)
  rw [hex4, hexValue_digitChar _ (hmod _), hexValue_digitChar _ (hmod _),
    hexValue_digitChar _ (hmod _), hexValue_digitChar _ (hmod _)]
  show some (((u / 4096 % 16 * 16 + u / 256 % 16) * 16 + u / 16 % 16) * 16 + u % 16)
    = some u
  rw [Option.some.injEq]
  omega

theorem hex4_lt {w x y z : Char} {u : Nat} (h : hex4 w x y z = some u) :
    u < 0x10000 := by
  cases hw : hexValue w with
  | none => simp [hex4, hw] at h
  | some a =>
      cases hx : hexValue x with
      | none => simp [hex4, hw, hx] at h
      | some b =>
          cases hy : hexValue y with
          | none => simp [hex4, hw, hx, hy] at h
          | some c =>
              cases hz : hexValue z with
              | none => simp [hex4, hw, hx, hy, hz] at h
              | some d =>
                  simp only [hex4, hw, hx, hy, hz, Option.some.injEq] at h
                  have ha := hexValue_lt hw
                  have hb := hexValue_lt hx
                  have hc := hexValue_lt hy
                  have hd := hexValue_lt hz
                  omega

theorem escapeOf_lt {e : Char} {u : Nat} (h : escapeOf e = some u) : u < 0x80 := by
  unfold escapeOf at h
  split at h <;> cases h <;> decide

theorem toNat_printable {u : Nat} (h : u ≤ 0x7E) : (Char.ofNat u).toNat = u := by
  -- no surrogates among them, so every number is a character
  have hall : ∀ n, n ≤ 0x7E → (Char.ofNat n).toNat = n := by decide
  exact hall u h

/-! The equations of `scanUnits`, one for each kind of character. -/

theorem scanUnits_quote (rest : List Char) :
    scanUnits ('"' :: rest) = some ([], rest) := by
  rw [scanUnits.eq_def]
  rfl

/-- A plain character is a unit, unless it is a control character. -/
theorem scanUnits_plain {c : Char} (hquote : c ≠ '"') (hslash : c ≠ '\\')
    (rest : List Char) : scanUnits (c :: rest)
      = if c.toNat < 0x20 then none else (scanUnits rest).map (consUnit c.toNat) := by
  rw [scanUnits.eq_def]
  simp only [hquote, hslash, if_false]

/-- A backslash and one character are a short escape. -/
theorem scanUnits_escape {e : Char} (he : e ≠ 'u') (rest : List Char) :
    scanUnits ('\\' :: e :: rest)
      = (escapeOf e).bind (fun u => (scanUnits rest).map (consUnit u)) := by
  rw [scanUnits.eq_def]
  simp only [he, if_false]
  cases escapeOf e <;> rfl

/-- A backslash, a `u` and four digits are a unit. -/
theorem scanUnits_hex (w x y z : Char) (rest : List Char) :
    scanUnits ('\\' :: 'u' :: w :: x :: y :: z :: rest)
      = (hex4 w x y z).bind (fun u => (scanUnits rest).map (consUnit u)) := by
  rw [scanUnits.eq_def]
  show (match hex4 w x y z with
    | some u => (scanUnits rest).map (consUnit u)
    | none => none) = _
  cases hex4 w x y z <;> rfl

/-- Scanning a printed unit gives the unit back. -/
theorem scanUnits_printUnit {u : Nat} (h : u < 0x10000) (tail : List Char) :
    scanUnits (printUnit u ++ tail) = (scanUnits tail).map (consUnit u) := by
  rw [printUnit]
  split_ifs with hquote hslash hn hr ht hf hb hprint
  · rw [hquote]
    exact scanUnits_escape (e := '"') (by decide) tail
  · rw [hslash]
    exact scanUnits_escape (e := '\\') (by decide) tail
  · rw [hn]
    exact scanUnits_escape (e := 'n') (by decide) tail
  · rw [hr]
    exact scanUnits_escape (e := 'r') (by decide) tail
  · rw [ht]
    exact scanUnits_escape (e := 't') (by decide) tail
  · rw [hf]
    exact scanUnits_escape (e := 'f') (by decide) tail
  · rw [hb]
    exact scanUnits_escape (e := 'b') (by decide) tail
  · -- any other character stands for itself
    have hnat := toNat_printable hprint.2
    have hne : ∀ d : Char, u ≠ d.toNat → Char.ofNat u ≠ d := by
      rintro d hd rfl
      exact hd hnat.symm
    rw [List.singleton_append, scanUnits_plain (hne '"' hquote) (hne '\\' hslash),
      hnat, if_neg (by omega)]
  · rw [hexDigits]
    refine (scanUnits_hex _ _ _ _ tail).trans ?_
    rw [hex4_hexDigits h]
    rfl

/-- The units of a printed string are scanned back, up to its quote. -/
theorem scanUnits_print {us : List Nat} (h : ∀ u ∈ us, u < 0x10000)
    (rest : List Char) :
    scanUnits (us.flatMap printUnit ++ '"' :: rest) = some (us, rest) := by
  induction us with
  | nil => exact scanUnits_quote rest
  | cons u us ih =>
      rw [List.flatMap_cons, List.append_assoc,
        scanUnits_printUnit (h u (List.mem_cons_self ..)),
        ih (fun v hv => h v (List.mem_cons_of_mem _ hv))]
      rfl

/-- What a code point is printed as are 16-bit units. -/
theorem units_lt {c : Nat} (h : c < 0x110000) : ∀ u ∈ units c, u < 0x10000 := by
  intro u hu
  rw [units] at hu
  split_ifs at hu with hsmall
  · rw [List.mem_singleton.mp hu]
    exact hsmall
  · rcases List.mem_cons.mp hu with rfl | hu
    · omega
    · rw [List.mem_singleton.mp hu]
      omega

/-- **A printed string is scanned back.** -/
theorem scanString_print {s : List Nat} (hs : WellPaired s) (rest : List Char) :
    scanString (printBody s ++ rest) = some (s, rest) := by
  have hunits : ∀ u ∈ s.flatMap units, u < 0x10000 := by
    intro u hu
    obtain ⟨c, hc, hmem⟩ := List.mem_flatMap.mp hu
    exact units_lt (hs.bound c hc) u hmem
  rw [scanString, printBody, List.append_assoc, List.singleton_append,
    scanUnits_print hunits rest, Option.map_some, joinPairs_units hs]

theorem toNat_bound (c : Char) : c.toNat < 0x110000 := by
  rcases c.valid with hlow | hhigh
  · exact Nat.lt_trans hlow (by decide)
  · exact hhigh.2

/-- What is scanned are units, off the front of the text. -/
theorem scanUnits_sound {s : List Char} : ∀ {us : List Nat} {rest : List Char},
    scanUnits s = some (us, rest) →
    (∀ u ∈ us, u < 0x110000) ∧ rest.length < s.length := by
  induction hn : s.length using Nat.strongRecOn generalizing s with
  | _ n ih =>
      intro us rest h
      -- one unit, and what is scanned behind it
      have hcons : ∀ {u : Nat} {t : List Char}, u < 0x110000 → t.length < n →
          (scanUnits t).map (consUnit u) = some (us, rest) →
          (∀ u ∈ us, u < 0x110000) ∧ rest.length < n := by
        intro u t hu hlt hmap
        obtain ⟨p, hp, heq⟩ := Option.map_eq_some_iff.mp hmap
        obtain ⟨rfl, rfl⟩ := Prod.mk.inj heq
        obtain ⟨hall, hlen⟩ := ih t.length hlt rfl hp
        refine ⟨?_, Nat.lt_trans hlen hlt⟩
        intro v hv
        rcases List.mem_cons.mp hv with heq | hmem
        · rw [heq]
          exact hu
        · exact hall v hmem
      cases s with
      | nil => cases h
      | cons c s =>
          rw [List.length_cons] at hn
          by_cases hquote : c = '"'
          · rw [hquote, scanUnits_quote] at h
            obtain ⟨rfl, rfl⟩ := Prod.mk.inj (Option.some.inj h)
            exact ⟨fun _ hu => absurd hu List.not_mem_nil, by omega⟩
          by_cases hslash : c = '\\'
          · rw [hslash] at h
            match s, hn, h with
            | e :: s, hn, h =>
                rw [List.length_cons] at hn
                by_cases he : e = 'u'
                · rw [he] at h
                  match s, hn, h with
                  | w :: x :: y :: z :: s, hn, h =>
                      simp only [List.length_cons] at hn
                      rw [scanUnits_hex] at h
                      obtain ⟨u, hu, hmap⟩ := Option.bind_eq_some_iff.mp h
                      have hlt := hex4_lt hu
                      exact hcons (by omega) (by omega) hmap
                · rw [scanUnits_escape he] at h
                  obtain ⟨u, hu, hmap⟩ := Option.bind_eq_some_iff.mp h
                  have hlt := escapeOf_lt hu
                  exact hcons (by omega) (by omega) hmap
          · rw [scanUnits_plain hquote hslash] at h
            split_ifs at h with hcontrol
            exact hcons (toNat_bound c) (by omega) h

/-- **Only strings without pairs are scanned.** -/
theorem scanString_wellPaired {s : List Char} {t : List Nat} {rest : List Char}
    (h : scanString s = some (t, rest)) :
    WellPaired t ∧ rest.length < s.length := by
  obtain ⟨p, hp, heq⟩ := Option.map_eq_some_iff.mp h
  obtain ⟨rfl, rfl⟩ := Prod.mk.inj heq
  obtain ⟨hall, hlen⟩ := scanUnits_sound hp
  exact ⟨joinPairs_wellPaired hall, hlen⟩

/-- ASCII text without control characters. -/
def Printable (s : List Char) : Prop := ∀ c ∈ s, 0x20 ≤ c.toNat ∧ c.toNat ≤ 0x7E

instance (s : List Char) : Decidable (Printable s) := List.decidableBAll _ s

theorem Printable.append {s t : List Char} (hs : Printable s) (ht : Printable t) :
    Printable (s ++ t) := by
  intro c hc
  rcases List.mem_append.mp hc with hmem | hmem
  · exact hs c hmem
  · exact ht c hmem

theorem Printable.cons {c : Char} {s : List Char} (hc : 0x20 ≤ c.toNat ∧ c.toNat ≤ 0x7E)
    (hs : Printable s) : Printable (c :: s) := by
  intro d hd
  rcases List.mem_cons.mp hd with rfl | hmem
  · exact hc
  · exact hs d hmem

/-- Every unit is printed in ASCII. -/
theorem printUnit_printable (u : Nat) : Printable (printUnit u) := by
  have hhex : ∀ n, 0x20 ≤ (Nat.digitChar (n % 16)).toNat
      ∧ (Nat.digitChar (n % 16)).toNat ≤ 0x7E := by
    intro n
    have hall : ∀ m, m < 16 → 0x20 ≤ (Nat.digitChar m).toNat
        ∧ (Nat.digitChar m).toNat ≤ 0x7E := by decide
    exact hall (n % 16) (Nat.mod_lt n (by decide))
  intro c hc
  rw [printUnit] at hc
  split_ifs at hc with hquote hslash hn hr ht hf hb hprint
  · exact (by decide : Printable ['\\', '"']) c hc
  · exact (by decide : Printable ['\\', '\\']) c hc
  · exact (by decide : Printable ['\\', 'n']) c hc
  · exact (by decide : Printable ['\\', 'r']) c hc
  · exact (by decide : Printable ['\\', 't']) c hc
  · exact (by decide : Printable ['\\', 'f']) c hc
  · exact (by decide : Printable ['\\', 'b']) c hc
  · rw [List.mem_singleton.mp hc, toNat_printable hprint.2]
    exact hprint
  · rw [hexDigits] at hc
    simp only [List.mem_cons, List.not_mem_nil, or_false] at hc
    rcases hc with rfl | rfl | rfl | rfl | rfl | rfl
    · decide
    · decide
    · exact hhex _
    · exact hhex _
    · exact hhex _
    · exact hhex _

/-- **What is printed for a string is ASCII, whatever the string.** -/
theorem printBody_printable (s : List Nat) : Printable (printBody s) := by
  refine Printable.append ?_ (Printable.cons (by decide) (fun _ h => by cases h))
  intro c hc
  obtain ⟨u, -, hmem⟩ := List.mem_flatMap.mp hc
  exact printUnit_printable u c hmem

/-! ## Numbers -/

/-- A number as it stands in the text: its sign, its whole part, and its
    fraction with its exponent. -/
structure Numeral where
  negative : Bool
  whole : List Char
  tail : List Char

def Numeral.text (n : Numeral) : List Char :=
  (if n.negative then ['-'] else []) ++ n.whole ++ n.tail

/-- `int(text)`. -/
def Numeral.int (n : Numeral) : Int :=
  if n.negative then -(Nat.ofDigitChars 10 n.whole 0 : Int)
  else Nat.ofDigitChars 10 n.whole 0

def scanMinus : List Char → Bool × List Char
  | [] => (false, [])
  | c :: rest => if c = '-' then (true, rest) else (false, c :: rest)

/-- A whole part is a zero, or digits that do not start with one. -/
def scanWhole : List Char → Option (List Char × List Char)
  | [] => none
  | c :: rest =>
      if c = '0' then some (['0'], rest)
      else if c.isDigit then
        some (c :: rest.takeWhile Char.isDigit, rest.dropWhile Char.isDigit)
      else none

/-- A point without a digit behind it is no fraction. -/
def scanFraction : List Char → List Char × List Char
  | [] => ([], [])
  | c :: rest =>
      if c = '.' ∧ rest.takeWhile Char.isDigit ≠ [] then
        (c :: rest.takeWhile Char.isDigit, rest.dropWhile Char.isDigit)
      else ([], c :: rest)

def scanSign : List Char → List Char × List Char
  | [] => ([], [])
  | c :: rest => if c = '+' ∨ c = '-' then ([c], rest) else ([], c :: rest)

/-- Nor is an `e` without one an exponent. -/
def scanExponent : List Char → List Char × List Char
  | [] => ([], [])
  | c :: rest =>
      if (c = 'e' ∨ c = 'E') ∧ (scanSign rest).2.takeWhile Char.isDigit ≠ [] then
        (c :: ((scanSign rest).1 ++ (scanSign rest).2.takeWhile Char.isDigit),
          (scanSign rest).2.dropWhile Char.isDigit)
      else ([], c :: rest)

def scanNumber (s : List Char) : Option (Numeral × List Char) :=
  (scanWhole (scanMinus s).2).map (fun w =>
    let f := scanFraction w.2
    let e := scanExponent f.2
    (⟨(scanMinus s).1, w.1, f.1 ++ e.1⟩, e.2))

/-- `str(n)`. -/
def printInt (n : Int) : List Char :=
  (if n < 0 then ['-'] else []) ++ Nat.toDigits 10 n.natAbs

/-- A character that goes on with no number. -/
def Delimiter (c : Char) : Prop :=
  c.isDigit = false ∧ c ≠ '.' ∧ c ≠ 'e' ∧ c ≠ 'E' ∧ c ≠ '+' ∧ c ≠ '-'

/-- A text that goes on with no number. -/
def Delimited (rest : List Char) : Prop := ∀ c ∈ rest.head?, Delimiter c

instance (c : Char) : Decidable (Delimiter c) :=
  inferInstanceAs (Decidable (_ ∧ _ ∧ _ ∧ _ ∧ _ ∧ _))

theorem delimited_nil : Delimited [] := fun _ h => by cases h

theorem delimited_cons {c : Char} (h : Delimiter c) (rest : List Char) :
    Delimited (c :: rest) := by
  intro d hd
  rw [List.head?_cons, Option.mem_some] at hd
  rw [← hd]
  exact h

/-! The parts of a numeral are taken off the text. -/

/-- The sign is taken off the front. -/
theorem scanMinus_text (s : List Char) :
    (if (scanMinus s).1 then ['-'] else []) ++ (scanMinus s).2 = s := by
  cases s with
  | nil => rfl
  | cons c s =>
      rw [scanMinus]
      by_cases hc : c = '-'
      · rw [if_pos hc, hc]
        rfl
      · rw [if_neg hc]
        rfl

/-- The whole part is taken off the front, and is not empty. -/
theorem scanWhole_text {s : List Char} {w : List Char × List Char}
    (h : scanWhole s = some w) : w.1 ++ w.2 = s ∧ w.1 ≠ [] := by
  cases s with
  | nil => cases h
  | cons c s =>
      rw [scanWhole] at h
      split_ifs at h with hzero hdigit
      · rw [← Option.some.inj h, hzero]
        exact ⟨rfl, List.cons_ne_nil _ _⟩
      · rw [← Option.some.inj h]
        refine ⟨?_, List.cons_ne_nil _ _⟩
        rw [List.cons_append, List.takeWhile_append_dropWhile]

/-- The fraction, if there is one, is taken off the front. -/
theorem scanFraction_text (s : List Char) :
    (scanFraction s).1 ++ (scanFraction s).2 = s := by
  cases s with
  | nil => rfl
  | cons c s =>
      rw [scanFraction]
      split_ifs
      · rw [List.cons_append, List.takeWhile_append_dropWhile]
      · rfl

theorem scanSign_text (s : List Char) : (scanSign s).1 ++ (scanSign s).2 = s := by
  cases s with
  | nil => rfl
  | cons c s =>
      rw [scanSign]
      split_ifs
      · rfl
      · rfl

theorem scanExponent_text (s : List Char) :
    (scanExponent s).1 ++ (scanExponent s).2 = s := by
  cases s with
  | nil => rfl
  | cons c s =>
      rw [scanExponent]
      split_ifs
      · rw [List.cons_append, List.append_assoc, List.takeWhile_append_dropWhile,
          scanSign_text]
      · rfl

/-- **The scanner takes a numeral off the text.** -/
theorem scanNumber_text {s rest : List Char} {n : Numeral}
    (h : scanNumber s = some (n, rest)) :
    n.text ++ rest = s ∧ rest.length < s.length := by
  obtain ⟨w, hw, heq⟩ := Option.map_eq_some_iff.mp h
  obtain ⟨rfl, rfl⟩ := Prod.mk.inj heq
  obtain ⟨hsplit, hne⟩ := scanWhole_text hw
  have hrest := scanFraction_text w.2
  have htail := scanExponent_text (scanFraction w.2).2
  have htext : Numeral.text ⟨(scanMinus s).1, w.1,
        (scanFraction w.2).1 ++ (scanExponent (scanFraction w.2).2).1⟩
      ++ (scanExponent (scanFraction w.2).2).2 = s := by
    rw [Numeral.text]
    simp only [List.append_assoc]
    rw [htail, hrest, hsplit]
    exact scanMinus_text s
  refine ⟨htext, ?_⟩
  have hlen := congrArg List.length htext
  have hpos := List.length_pos_iff.mpr hne
  simp only [Numeral.text, List.length_append] at hlen
  show (scanExponent (scanFraction w.2).2).2.length < s.length
  omega

/-! What follows a numeral does not change it. -/

section Delimited

variable {rest : List Char} (hrest : Delimited rest)
include hrest

/-- Digits end before a delimiter, whatever comes after it. -/
theorem takeWhile_delimited (s : List Char) :
    (s ++ rest).takeWhile Char.isDigit = s.takeWhile Char.isDigit
      ∧ (s ++ rest).dropWhile Char.isDigit = s.dropWhile Char.isDigit ++ rest := by
  induction s with
  | nil =>
      cases rest with
      | nil => exact ⟨rfl, rfl⟩
      | cons c rest =>
          have hc : c.isDigit = false := (hrest c rfl).1
          exact ⟨List.takeWhile_cons_of_neg (by simp [hc]),
            List.dropWhile_cons_of_neg (by simp [hc])⟩
  | cons c s ih =>
      rw [List.cons_append]
      by_cases hc : c.isDigit = true
      · rw [List.takeWhile_cons_of_pos hc, List.takeWhile_cons_of_pos hc,
          List.dropWhile_cons_of_pos hc, List.dropWhile_cons_of_pos hc, ih.1, ih.2]
        exact ⟨rfl, rfl⟩
      · rw [List.takeWhile_cons_of_neg hc, List.takeWhile_cons_of_neg hc,
          List.dropWhile_cons_of_neg hc, List.dropWhile_cons_of_neg hc, List.cons_append]
        exact ⟨rfl, rfl⟩

theorem scanFraction_append (s : List Char) :
    scanFraction (s ++ rest) = ((scanFraction s).1, (scanFraction s).2 ++ rest) := by
  cases s with
  | nil =>
      cases rest with
      | nil => rfl
      | cons c rest =>
          have hc : c ≠ '.' := (hrest c rfl).2.1
          simp [scanFraction, hc]
  | cons c s =>
      obtain ⟨htake, hdrop⟩ := takeWhile_delimited hrest s
      rw [List.cons_append, scanFraction, scanFraction, htake, hdrop]
      split_ifs
      · rfl
      · rfl

theorem scanSign_append (s : List Char) :
    scanSign (s ++ rest) = ((scanSign s).1, (scanSign s).2 ++ rest) := by
  cases s with
  | nil =>
      cases rest with
      | nil => rfl
      | cons c rest =>
          obtain ⟨-, -, -, -, hplus, hminus⟩ := hrest c rfl
          simp [scanSign, hplus, hminus]
  | cons c s =>
      rw [List.cons_append, scanSign, scanSign]
      split_ifs
      · rfl
      · rfl

theorem scanExponent_append (s : List Char) :
    scanExponent (s ++ rest) = ((scanExponent s).1, (scanExponent s).2 ++ rest) := by
  cases s with
  | nil =>
      cases rest with
      | nil => rfl
      | cons c rest =>
          obtain ⟨-, -, he, hE, -, -⟩ := hrest c rfl
          simp [scanExponent, he, hE]
  | cons c s =>
      obtain ⟨htake, hdrop⟩ := takeWhile_delimited hrest (scanSign s).2
      rw [List.cons_append, scanExponent, scanExponent, scanSign_append hrest s, htake,
        hdrop]
      split_ifs
      · rfl
      · rfl

/-- A delimiter does not change the whole part before it. -/
theorem scanWhole_append {s : List Char} {w : List Char × List Char}
    (h : scanWhole s = some w) : scanWhole (s ++ rest) = some (w.1, w.2 ++ rest) := by
  cases s with
  | nil => cases h
  | cons c s =>
      obtain ⟨htake, hdrop⟩ := takeWhile_delimited hrest s
      rw [scanWhole] at h
      rw [List.cons_append, scanWhole, htake, hdrop]
      split_ifs at h ⊢ with hzero hdigit
      · rw [← Option.some.inj h]
      · rw [← Option.some.inj h]

/-- **The same numeral is scanned before any delimiter.** -/
theorem scanNumber_append {s t : List Char} {n : Numeral}
    (h : scanNumber s = some (n, t)) :
    scanNumber (s ++ rest) = some (n, t ++ rest) := by
  obtain ⟨w, hw, heq⟩ := Option.map_eq_some_iff.mp h
  obtain ⟨rfl, rfl⟩ := Prod.mk.inj heq
  have hminus : scanMinus (s ++ rest) = ((scanMinus s).1, (scanMinus s).2 ++ rest) := by
    cases s with
    | nil => cases hw
    | cons c s =>
        rw [List.cons_append, scanMinus, scanMinus]
        split_ifs
        · rfl
        · rfl
  rw [scanNumber, hminus, scanWhole_append hrest hw, Option.map_some]
  simp only [scanFraction_append hrest, scanExponent_append hrest]

end Delimited

theorem scanWhole_digits {s : List Char} {w : List Char × List Char}
    (h : scanWhole s = some w) : ∀ c ∈ w.1, c.isDigit = true := by
  cases s with
  | nil => cases h
  | cons c s =>
      rw [scanWhole] at h
      split_ifs at h with hzero hdigit
      · rw [← Option.some.inj h]
        intro d hd
        rw [List.mem_singleton.mp hd]
        rfl
      · rw [← Option.some.inj h]
        intro d hd
        rcases List.mem_cons.mp hd with rfl | hmem
        · exact hdigit
        · exact List.all_eq_true.mp List.all_takeWhile d hmem

/-- A numeral is below the power of ten of its length. -/
theorem ofDigitChars_lt {ds : List Char} (h : ∀ c ∈ ds, c.isDigit = true) :
    Nat.ofDigitChars 10 ds 0 < 10 ^ ds.length := by
  induction ds with
  | nil => decide
  | cons d ds ih =>
      have hrest := ih (fun c hc => h c (List.mem_cons_of_mem _ hc))
      have hd : d.toNat - '0'.toNat ≤ 9 := by
        have hdigit := h d (List.mem_cons_self ..)
        rw [Char.isDigit_iff_toNat] at hdigit
        have htop : d.toNat ≤ 57 := hdigit.2
        show d.toNat - 48 ≤ 9
        omega
      have hmul : 10 ^ ds.length * (10 * 0 + (d.toNat - '0'.toNat))
          ≤ 10 ^ ds.length * 9 := Nat.mul_le_mul_left _ (by omega)
      rw [Nat.ofDigitChars_cons, Nat.ofDigitChars_eq_ofDigitChars_zero,
        List.length_cons, Nat.pow_succ]
      omega

/-- The digits of a whole part are no fewer than those of its value. -/
theorem scanNumber_digits {s rest : List Char} {n : Numeral}
    (h : scanNumber s = some (n, rest)) :
    (Nat.toDigits 10 n.int.natAbs).length ≤ n.whole.length := by
  obtain ⟨w, hw, heq⟩ := Option.map_eq_some_iff.mp h
  obtain ⟨rfl, -⟩ := Prod.mk.inj heq
  have habs : (Numeral.int ⟨(scanMinus s).1, w.1,
      (scanFraction w.2).1 ++ (scanExponent (scanFraction w.2).2).1⟩).natAbs
      = Nat.ofDigitChars 10 w.1 0 := by
    rw [Numeral.int]
    split_ifs
    · rw [Int.natAbs_neg, Int.natAbs_natCast]
    · rw [Int.natAbs_natCast]
  rw [habs, Nat.length_toDigits_le_iff (by decide)
    (List.length_pos_iff.mpr (scanWhole_text hw).2)]
  exact ofDigitChars_lt (scanWhole_digits hw)

theorem printable_digits {ds : List Char} (h : ∀ c ∈ ds, c.isDigit = true) :
    Printable ds := by
  intro c hc
  have hdigit := h c hc
  rw [Char.isDigit_iff_toNat] at hdigit
  have hlow : 48 ≤ c.toNat := hdigit.1
  have htop : c.toNat ≤ 57 := hdigit.2
  omega

/-- Integers are written in printable characters. -/
theorem printInt_printable (n : Int) : Printable (printInt n) := by
  have hdigits : Printable (Nat.toDigits 10 n.natAbs) := by
    refine printable_digits (fun c hc => ?_)
    exact Nat.isDigit_of_mem_toDigits (by decide) (by decide) hc
  rw [printInt]
  split_ifs
  · exact Printable.cons (by decide) hdigits
  · exact hdigits

/-- A text that is a number is ASCII. -/
theorem scanNumber_printable {s : List Char} {n : Numeral}
    (h : scanNumber s = some (n, [])) : Printable s := by
  have htake : ∀ t : List Char, Printable (t.takeWhile Char.isDigit) := fun t =>
    printable_digits (fun c hc => List.all_eq_true.mp List.all_takeWhile c hc)
  have hnil : Printable [] := fun _ hc => by cases hc
  have htext := (scanNumber_text h).1
  obtain ⟨w, hw, heq⟩ := Option.map_eq_some_iff.mp h
  obtain ⟨rfl, -⟩ := Prod.mk.inj heq
  rw [List.append_nil, Numeral.text] at htext
  rw [← htext]
  refine Printable.append (Printable.append ?_ ?_) (Printable.append ?_ ?_)
  · split_ifs
    · exact Printable.cons (by decide) hnil
    · exact hnil
  · exact printable_digits (scanWhole_digits hw)
  · cases w.2 with
    | nil => exact hnil
    | cons c t =>
        rw [scanFraction]
        split_ifs with hpoint
        · rw [hpoint.1]
          exact Printable.cons (by decide) (htake t)
        · exact hnil
  · have hsign : ∀ t, Printable (scanSign t).1 := by
      intro t
      cases t with
      | nil => exact hnil
      | cons c t =>
          rw [scanSign]
          split_ifs with hc
          · rcases hc with rfl | rfl
            · exact Printable.cons (by decide) hnil
            · exact Printable.cons (by decide) hnil
          · exact hnil
    cases (scanFraction w.2).2 with
    | nil => exact hnil
    | cons c t =>
        rw [scanExponent]
        split_ifs with hexp
        · refine Printable.cons ?_ (Printable.append (hsign t) (htake _))
          rcases hexp.1 with rfl | rfl
          · decide
          · decide
        · exact hnil

/-- A positive number does not start with a zero. -/
theorem toDigits_head {n : Nat} (h : 0 < n) :
    ∃ c ds, Nat.toDigits 10 n = c :: ds ∧ c ≠ '0' := by
  induction n using Nat.strongRecOn with
  | _ n ih =>
      by_cases hsmall : n < 10
      · refine ⟨Nat.digitChar n, [], Nat.toDigits_of_lt_base hsmall, ?_⟩
        rw [Ne, Nat.digitChar_eq_zero]
        omega
      · obtain ⟨c, ds, heq, hc⟩ := ih (n / 10) (by omega) (by omega)
        refine ⟨c, ds ++ [Nat.digitChar (n % 10)], ?_, hc⟩
        rw [Nat.toDigits_of_base_le (by decide) (Nat.le_of_not_lt hsmall), heq,
          List.cons_append]

/-- The decimal digits of a number are a whole part: no zero leads them. -/
theorem scanWhole_toDigits (n : Nat) :
    scanWhole (Nat.toDigits 10 n) = some (Nat.toDigits 10 n, []) := by
  by_cases hn : n = 0
  · rw [hn]
    decide
  · obtain ⟨c, ds, heq, hc⟩ := toDigits_head (Nat.pos_of_ne_zero hn)
    have hdigits : ∀ d ∈ c :: ds, d.isDigit = true := by
      intro d hd
      rw [← heq] at hd
      exact Nat.isDigit_of_mem_toDigits (by decide) (by decide) hd
    have hds : ∀ d ∈ ds, d.isDigit = true :=
      fun d hd => hdigits d (List.mem_cons_of_mem _ hd)
    have htake : (ds ++ []).takeWhile Char.isDigit = ds ++ [].takeWhile Char.isDigit :=
      List.takeWhile_append_of_pos hds
    have hdrop : (ds ++ []).dropWhile Char.isDigit = [].dropWhile Char.isDigit :=
      List.dropWhile_append_of_pos hds
    rw [List.append_nil, List.takeWhile_nil, List.append_nil] at htake
    rw [List.append_nil, List.dropWhile_nil] at hdrop
    rw [heq, scanWhole, if_neg hc, if_pos (hdigits c (List.mem_cons_self ..)), htake,
      hdrop]

/-- **A printed integer is scanned back.** -/
theorem scanNumber_printInt (n : Int) {rest : List Char} (hrest : Delimited rest) :
    ∃ m : Numeral, scanNumber (printInt n ++ rest) = some (m, rest)
      ∧ m.tail = [] ∧ m.int = n ∧ m.whole = Nat.toDigits 10 n.natAbs := by
  have hhead : ∀ c ∈ (Nat.toDigits 10 n.natAbs).head?, c ≠ '-' := by
    rintro c hc rfl
    have hdigit := Nat.isDigit_of_mem_toDigits (b := 10) (by decide) (by decide)
      (List.mem_of_mem_head? hc)
    cases hdigit
  have hminus : scanMinus (printInt n) = (decide (n < 0), Nat.toDigits 10 n.natAbs) := by
    rw [printInt]
    by_cases hneg : n < 0
    · rw [if_pos hneg, List.singleton_append, scanMinus, if_pos rfl, decide_eq_true hneg]
    · rw [if_neg hneg, List.nil_append, decide_eq_false hneg]
      cases hds : Nat.toDigits 10 n.natAbs with
      | nil => rfl
      | cons c ds =>
          rw [hds] at hhead
          rw [scanMinus, if_neg (hhead c rfl)]
  have hscan : scanNumber (printInt n)
      = some (⟨decide (n < 0), Nat.toDigits 10 n.natAbs, []⟩, []) := by
    rw [scanNumber, hminus, scanWhole_toDigits]
    rfl
  refine ⟨_, scanNumber_append hrest hscan, rfl, ?_, rfl⟩
  rw [Numeral.int, Nat.ofDigitChars_ten_toDigits]
  by_cases hneg : n < 0
  · rw [decide_eq_true hneg, if_pos rfl]
    omega
  · rw [decide_eq_false hneg, if_neg Bool.false_ne_true]
    omega

end JsonText
