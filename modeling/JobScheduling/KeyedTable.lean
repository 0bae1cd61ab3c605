import Mathlib.Data.List.Nodup
import Mathlib.Data.List.Forall2
import Mathlib.Data.List.Perm.Subperm

/-! # Tables as lists of rows

    What SQL statements on one table do to a list of rows, over an arbitrary
    row type: `SELECT … WHERE` is `find?`, `COUNT(*)` is `countP`, an
    `UPDATE … WHERE` maps over the rows (`updateWhere`) and an insertion
    appends.

    `Evolves ρ` compares a table with a later one of itself: every row is
    still there, at its place, and has moved along `ρ` — rows are never
    deleted, and `ρ` says what may be rewritten. -/

namespace KeyedTable

variable {α κ : Type*}

/-- `UPDATE … SET f WHERE p`. -/
def updateWhere (p : α → Bool) (f : α → α) (T : List α) : List α :=
  T.map (fun r => if p r then f r else r)

/-- A row of the updated table was a row, and has been rewritten if it matched. -/
theorem mem_updateWhere {p : α → Bool} {f : α → α} {T : List α} {r' : α} :
    r' ∈ updateWhere p f T
      ↔ ∃ r ∈ T, r' = if p r then f r else r := by
  rw [updateWhere]
  rw [List.mem_map]
  constructor
  · rintro ⟨r, hr, heq⟩; exact ⟨r, hr, heq.symm⟩
  · rintro ⟨r, hr, heq⟩; exact ⟨r, hr, heq.symm⟩

/-- A column the update does not set is unchanged, as a whole. -/
theorem map_updateWhere {p : α → Bool} {f : α → α} {g : α → κ}
    (hg : ∀ r, g (f r) = g r) (T : List α) :
    (updateWhere p f T).map g = T.map g := by
  rw [updateWhere]
  rw [List.map_map]
  refine List.map_congr_left ?_
  intro r _
  show g (if p r then f r else r) = g r
  by_cases hp : p r = true
  · rw [if_pos hp, hg]
  · rw [if_neg hp]

/-- A query whose condition reads no updated column finds the same row, as
    updated. -/
theorem find?_updateWhere {p q : α → Bool} {f : α → α}
    (hq : ∀ r, q (f r) = q r) (T : List α) :
    (updateWhere p f T).find? q
      = (T.find? q).map (fun r => if p r then f r else r) := by
  rw [updateWhere]
  -- the condition cannot tell a row from its update
  have hcomp : q ∘ (fun r => if p r then f r else r) = q := by
    funext r
    show q (if p r then f r else r) = q r
    by_cases hp : p r = true
    · rw [if_pos hp, hq]
    · rw [if_neg hp]
  rw [List.find?_map, hcomp]

/-- A selection that an update leaves out is unchanged by it. -/
theorem filter_updateWhere {p q : α → Bool} {f : α → α} {T : List α}
    (hq : ∀ r, q (f r) = q r) (hp : ∀ r ∈ T, q r = true → ¬ p r = true) :
    (updateWhere p f T).filter q = T.filter q := by
  induction T with
  | nil => rfl
  | cons a T ih =>
      have hrest := ih (fun r hr => hp r (List.mem_cons_of_mem a hr))
      have hcons : updateWhere p f (a :: T)
          = (if p a then f a else a) :: updateWhere p f T := rfl
      rw [hcons]
      by_cases hpa : p a = true
      · -- an updated row is not selected, before or after
        have hqa : ¬ q a = true := fun h => hp a (List.mem_cons_self ..) h hpa
        have hqf : ¬ q (f a) = true := by rwa [hq]
        rw [if_pos hpa, List.filter_cons_of_neg hqf, List.filter_cons_of_neg hqa,
          hrest]
      · rw [if_neg hpa]
        by_cases hqa : q a = true
        · rw [List.filter_cons_of_pos hqa, List.filter_cons_of_pos hqa, hrest]
        · rw [List.filter_cons_of_neg hqa, List.filter_cons_of_neg hqa, hrest]

/-- An update that makes no row satisfy `q` that did not before cannot raise
    the count of `q`. -/
theorem countP_updateWhere_le {p q : α → Bool} {f : α → α} {T : List α}
    (h : ∀ r ∈ T, p r = true → q (f r) = true → q r = true) :
    (updateWhere p f T).countP q ≤ T.countP q := by
  rw [updateWhere]
  rw [List.countP_map]
  refine List.countP_mono_left ?_
  intro r hr hq
  have hq' : q (if p r then f r else r) = true := hq
  by_cases hp : p r = true
  · rw [if_pos hp] at hq'
    exact h r hr hp hq'
  · rwa [if_neg hp] at hq'

/-- An update that keeps rows unrelated keeps the table pairwise unrelated. -/
theorem pairwise_updateWhere {p : α → Bool} {f : α → α} {T : List α}
    {R : α → α → Prop}
    (hl : ∀ a ∈ T, ∀ b, p a = true → R a b → R (f a) b)
    (hr : ∀ a, ∀ b ∈ T, p b = true → R a b → R a (f b))
    (h : T.Pairwise R) : (updateWhere p f T).Pairwise R := by
  rw [updateWhere]
  rw [List.pairwise_map]
  refine h.imp_of_mem ?_
  intro a b ha hb hab
  -- first the left row is updated, then the right one
  have hleft : R (if p a then f a else a) b := by
    by_cases hp : p a = true
    · rw [if_pos hp]; exact hl a ha b hp hab
    · rw [if_neg hp]; exact hab
  by_cases hp : p b = true
  · rw [if_pos (c := p b = true) hp]; exact hr _ b hb hp hleft
  · rw [if_neg (c := p b = true) hp]; exact hleft

/-- An update that rewrites nothing. -/
theorem updateWhere_id (p : α → Bool) (T : List α) : updateWhere p id T = T := by
  rw [updateWhere]
  refine (List.map_congr_left ?_).trans (List.map_id T)
  intro r _
  show (if p r then r else r) = r
  rw [ite_self]

/-- An update does not touch inserted rows that miss its condition. -/
theorem updateWhere_append {p : α → Bool} {f : α → α} {T new : List α}
    (h : ∀ r ∈ new, ¬ p r = true) :
    updateWhere p f (T ++ new) = updateWhere p f T ++ new := by
  rw [updateWhere, List.map_append, ← updateWhere]
  refine congrArg (updateWhere p f T ++ ·) ?_
  refine (List.map_congr_left ?_).trans (List.map_id new)
  intro r hr
  exact if_neg (h r hr)

/-- Updates of different rows commute. -/
theorem updateWhere_comm {p q : α → Bool} {f g : α → α}
    (hp : ∀ r, p (g r) = p r) (hq : ∀ r, q (f r) = q r)
    (hpq : ∀ r, p r = true → ¬ q r = true) (T : List α) :
    updateWhere p f (updateWhere q g T) = updateWhere q g (updateWhere p f T) := by
  rw [updateWhere, updateWhere, updateWhere, updateWhere, List.map_map,
    List.map_map]
  refine List.map_congr_left ?_
  intro r _
  show (if p (if q r then g r else r) then f (if q r then g r else r)
      else (if q r then g r else r))
    = (if q (if p r then f r else r) then g (if p r then f r else r)
      else (if p r then f r else r))
  by_cases hr : p r = true
  · have hqr : ¬ q r = true := hpq r hr
    have hqf : ¬ q (f r) = true := by rwa [hq]
    rw [if_neg hqr, if_pos hr, if_neg hqf]
  · by_cases hqr : q r = true
    · have hpg : ¬ p (g r) = true := by rwa [hp]
      rw [if_pos hqr, if_neg hr, if_neg hpg, if_pos hqr]
    · rw [if_neg hqr, if_neg hr, if_neg hqr]

/-- A row found before an insertion is found after it. -/
theorem find?_append_of_some {q : α → Bool} {T new : List α} {r : α}
    (h : T.find? q = some r) : (T ++ new).find? q = some r := by
  rw [List.find?_append, h]
  rfl

/-- With unique keys, looking a key up returns the row that has it. -/
theorem find?_key [DecidableEq κ] {key : α → κ} {T : List α}
    (hT : (T.map key).Nodup) {k : κ} {r : α} :
    T.find? (fun x => key x = k) = some r ↔ r ∈ T ∧ key r = k := by
  constructor
  · intro h
    exact ⟨List.mem_of_find?_eq_some h, by simpa using List.find?_some h⟩
  · rintro ⟨hr, hk⟩
    cases hf : T.find? (fun x => key x = k) with
    | none =>
        have hne := List.find?_eq_none.mp hf r hr
        exact absurd (decide_eq_true hk) hne
    | some r' =>
        -- the row found has the key, and only one row has
        have hmem : r' ∈ T := List.mem_of_find?_eq_some hf
        have hkey : key r' = k := by simpa using List.find?_some hf
        rw [List.inj_on_of_nodup_map hT hmem hr (hkey.trans hk.symm)]

/-- Inserting a row with a key no row has keeps the keys unique. -/
theorem nodup_map_insert {key : α → κ} {T : List α} {r : α}
    (hT : (T.map key).Nodup) (hr : ∀ x ∈ T, key x ≠ key r) :
    ((T ++ [r]).map key).Nodup := by
  rw [List.map_append, List.nodup_append]
  refine ⟨hT, List.nodup_singleton _, ?_⟩
  intro k hk k' hk' heq
  obtain ⟨x, hx, hxk⟩ := List.mem_map.mp hk
  rw [List.map_singleton, List.mem_singleton] at hk'
  exact hr x hx (hxk.trans (heq.trans hk'))

/-- A row of a table in which one place was overwritten is the new row, or an
    old one at another place. -/
theorem getElem?_set_some {T : List α} {i j : Nat} {r r' : α}
    (h : (T.set i r)[j]? = some r') :
    (i = j ∧ r' = r) ∨ (i ≠ j ∧ T[j]? = some r') := by
  by_cases hij : i = j
  · rw [← hij] at h
    have hlen := (List.getElem?_eq_some_iff.mp h).1
    rw [List.length_set] at hlen
    rw [List.getElem?_set_self hlen] at h
    exact Or.inl ⟨hij, (Option.some.inj h).symm⟩
  · rw [List.getElem?_set_ne hij] at h
    exact Or.inr ⟨hij, h⟩

/-- A row of a table to which one was added is the new row, or an old one. -/
theorem getElem?_concat_some {T : List α} {j : Nat} {r r' : α}
    (h : (T ++ [r])[j]? = some r') :
    (j < T.length ∧ T[j]? = some r') ∨ (j = T.length ∧ r' = r) := by
  by_cases hj : j < T.length
  · rw [List.getElem?_append_left hj] at h
    exact Or.inl ⟨hj, h⟩
  · rw [List.getElem?_append_right (Nat.le_of_not_lt hj),
      List.getElem?_singleton] at h
    split at h
    · exact Or.inr ⟨by omega, (Option.some.inj h).symm⟩
    · cases h

/-- Overwriting a place loses no row but the one that was there. -/
theorem mem_set_of_mem {T : List α} {i : Nat} {r r' x : α}
    (h : T[i]? = some r) (hx : x ∈ T) : x = r ∨ x ∈ T.set i r' := by
  obtain ⟨j, hj⟩ := List.mem_iff_getElem?.mp hx
  by_cases hij : i = j
  · rw [← hij, h] at hj
    exact Or.inl (Option.some.inj hj).symm
  · refine Or.inr (List.mem_iff_getElem?.mpr ⟨j, ?_⟩)
    rw [List.getElem?_set_ne hij]
    exact hj

/-- The row a place is overwritten with is in the table. -/
theorem mem_set_self {T : List α} {i : Nat} {r r' : α} (h : T[i]? = some r) :
    r' ∈ T.set i r' := by
  refine List.mem_iff_getElem?.mpr ⟨i, ?_⟩
  rw [List.getElem?_set_self (List.getElem?_eq_some_iff.mp h).1]

/-! ## What changed between two tables -/

/-- The rows of `T` that are not the same in `T'`, as they are there; rows
    that were only added do not count. -/
def changed [DecidableEq α] (T T' : List α) : List α :=
  (T.zip T').filterMap (fun p => if p.1 = p.2 then none else some p.2)

/-- The first rows are compared first. -/
theorem changed_cons [DecidableEq α] (a b : α) (T T' : List α) :
    changed (a :: T) (b :: T')
      = (if a = b then [] else [b]) ++ changed T T' := by
  rw [changed, changed, List.zip_cons_cons]
  by_cases hab : a = b
  · rw [if_pos hab, List.filterMap_cons_none (by rw [if_pos hab])]
    rfl
  · rw [if_neg hab, List.filterMap_cons_some (by rw [if_neg hab])]
    rfl

/-- An insertion changes no row. -/
theorem changed_append [DecidableEq α] (T new : List α) :
    changed T (T ++ new) = [] := by
  induction T with
  | nil => rfl
  | cons a T ih =>
      rw [List.cons_append, changed_cons, if_pos rfl, ih]
      rfl

theorem changed_self [DecidableEq α] (T : List α) : changed T T = [] := by
  have h := changed_append T []
  rwa [List.append_nil] at h

/-- With unique keys, an update of one key that does something changes exactly
    its row. -/
theorem changed_updateWhere [DecidableEq α] [DecidableEq κ] {key : α → κ}
    {f : α → α} {T : List α} (hT : (T.map key).Nodup) {r : α} (hr : r ∈ T)
    (hf : f r ≠ r) :
    changed T (updateWhere (fun x => key x == key r) f T) = [f r] := by
  induction T with
  | nil => cases hr
  | cons a T ih =>
      rw [List.map_cons, List.nodup_cons] at hT
      have hcons : updateWhere (fun x => key x == key r) f (a :: T)
          = (if key a == key r then f a else a)
            :: updateWhere (fun x => key x == key r) f T := rfl
      rw [hcons, changed_cons]
      rcases List.mem_cons.mp hr with rfl | hmem
      · -- the row is the first one, and no later row has its key
        have hrest : updateWhere (fun x => key x == key r) f T = T := by
          rw [updateWhere]
          refine (List.map_congr_left ?_).trans (List.map_id T)
          intro x hx
          refine if_neg ?_
          intro heq
          exact hT.1 (List.mem_map.mpr ⟨x, hx, eq_of_beq heq⟩)
        rw [hrest, changed_self, if_pos (beq_self_eq_true _),
          if_neg (fun h => hf h.symm)]
        rfl
      · have hne : ¬ (key a == key r) = true := by
          intro heq
          refine hT.1 (List.mem_map.mpr ⟨r, hmem, ?_⟩)
          exact (eq_of_beq heq).symm
        rw [if_neg hne, if_pos rfl, ih hT.2 hmem]
        rfl

/-- A changed row stands where another one stood. -/
theorem mem_changed [DecidableEq α] {T T' : List α} {r' : α}
    (h : r' ∈ changed T T') :
    ∃ (i : Nat) (r : α), T[i]? = some r ∧ T'[i]? = some r' ∧ r ≠ r' := by
  obtain ⟨⟨r, s⟩, hp, hrs⟩ := List.mem_filterMap.mp h
  obtain ⟨i, hi⟩ := List.mem_iff_getElem?.mp hp
  obtain ⟨hr, hs⟩ := List.getElem?_zip_eq_some.mp hi
  by_cases heq : r = s
  · rw [if_pos heq] at hrs
    cases hrs
  · rw [if_neg heq, Option.some.injEq] at hrs
    exact ⟨i, r, hr, hrs ▸ hs, fun h => heq (h.trans hrs.symm)⟩

/-- The changed rows are rows of the table, in its order. -/
theorem changed_sublist [DecidableEq α] (T T' : List α) :
    (changed T T').Sublist T' := by
  induction T generalizing T' with
  | nil => exact List.nil_sublist T'
  | cons a T ih =>
      cases T' with
      | nil => exact List.nil_sublist []
      | cons b T' =>
          rw [changed_cons]
          by_cases hab : a = b
          · rw [if_pos hab, List.nil_append]
            exact (ih T').cons b
          · rw [if_neg hab]
            exact (ih T').cons_cons b

/-! ## Partial columns -/

/-- Parts of a list without duplicates have none. -/
theorem nodup_of_subperm {l l' : List α} (h : l.Subperm l') (h' : l'.Nodup) :
    l.Nodup := by
  obtain ⟨xs, hperm, hsub⟩ := h
  exact hperm.nodup_iff.mp (h'.sublist hsub)

/-- Two rows with one value in a partial column without duplicates are one. -/
theorem eq_of_nodup_filterMap {f : α → Option κ} {l : List α}
    (h : (l.filterMap f).Nodup) {a b : α} (ha : a ∈ l) (hb : b ∈ l) {k : κ}
    (hka : f a = some k) (hkb : f b = some k) : a = b := by
  induction l with
  | nil => cases ha
  | cons x xs ih =>
      cases hx : f x with
      | none =>
          rw [List.filterMap_cons_none hx] at h
          rcases List.mem_cons.mp ha with rfl | ha'
          · cases hx.symm.trans hka
          · rcases List.mem_cons.mp hb with rfl | hb'
            · cases hx.symm.trans hkb
            · exact ih h ha' hb'
      | some y =>
          rw [List.filterMap_cons_some hx, List.nodup_cons] at h
          -- a second row with the value of the first contradicts `h`
          rcases List.mem_cons.mp ha with rfl | ha'
          · rcases List.mem_cons.mp hb with rfl | hb'
            · rfl
            · rw [Option.some.inj (hx.symm.trans hka)] at h
              exact absurd (List.mem_filterMap.mpr ⟨b, hb', hkb⟩) h.1
          · rcases List.mem_cons.mp hb with rfl | hb'
            · rw [Option.some.inj (hx.symm.trans hkb)] at h
              exact absurd (List.mem_filterMap.mpr ⟨a, ha', hka⟩) h.1
            · exact ih h.2 ha' hb'

/-- Replacing one row exchanges its value in a partial column. -/
theorem count_filterMap_set [BEq κ] {f : α → Option κ} {l : List α} {i : Nat}
    {a b : α} (h : l[i]? = some a) (k : κ) :
    ((l.set i b).filterMap f).count k + (f a).toList.count k
      = (l.filterMap f).count k + (f b).toList.count k := by
  -- a row contributes its own value, if any
  have hcons : ∀ (x : α) (xs : List α), ((x :: xs).filterMap f).count k
      = (f x).toList.count k + (xs.filterMap f).count k := by
    intro x xs
    cases hx : f x with
    | none => rw [List.filterMap_cons_none hx]; exact (Nat.zero_add _).symm
    | some y => rw [List.filterMap_cons_some hx, ← List.count_append]; rfl
  induction l generalizing i with
  | nil => cases h
  | cons x xs ih =>
      cases i with
      | zero =>
          rw [List.getElem?_cons_zero, Option.some.injEq] at h
          rw [List.set_cons_zero, hcons, hcons, h]
          omega
      | succ i =>
          rw [List.getElem?_cons_succ] at h
          have hrest := ih h
          rw [List.set_cons_succ, hcons, hcons]
          omega

/-! ## Evolution of a table -/

/-- Every row of `T` is still in `T'`, at the same place, moved along `ρ`. -/
def Evolves (ρ : α → α → Prop) (T T' : List α) : Prop :=
  ∀ (i : Nat) (r : α), T[i]? = some r → ∃ r', T'[i]? = some r' ∧ ρ r r'

variable {ρ : α → α → Prop}

theorem Evolves.refl (hρ : ∀ r, ρ r r) (T : List α) : Evolves ρ T T :=
  fun _ r hr => ⟨r, hr, hρ r⟩

theorem Evolves.trans (hρ : ∀ a b c, ρ a b → ρ b c → ρ a c) {T U V : List α}
    (h₁ : Evolves ρ T U) (h₂ : Evolves ρ U V) : Evolves ρ T V := by
  intro i r hr
  obtain ⟨r', hr', hρ₁⟩ := h₁ i r hr
  obtain ⟨r'', hr'', hρ₂⟩ := h₂ i r' hr'
  exact ⟨r'', hr'', hρ r r' r'' hρ₁ hρ₂⟩

/-- A table that evolves keeps each of its rows, moved along `ρ`. -/
theorem Evolves.mem {T T' : List α} (h : Evolves ρ T T') {r : α} (hr : r ∈ T) :
    ∃ r' ∈ T', ρ r r' := by
  obtain ⟨i, hi⟩ := List.mem_iff_getElem?.mp hr
  obtain ⟨r', hr', hρ⟩ := h i r hi
  exact ⟨r', List.mem_of_getElem? hr', hρ⟩

/-- An evolution by a step is one by a weaker step. -/
theorem Evolves.mono {ρ' : α → α → Prop} (hρ : ∀ a b, ρ a b → ρ' a b)
    {T T' : List α} (h : Evolves ρ T T') : Evolves ρ' T T' := by
  intro i r hr
  obtain ⟨r', hr', hrel⟩ := h i r hr
  exact ⟨r', hr', hρ r r' hrel⟩

theorem Evolves.append (hρ : ∀ r, ρ r r) (T new : List α) :
    Evolves ρ T (T ++ new) := by
  intro i r hr
  obtain ⟨hi, -⟩ := List.getElem?_eq_some_iff.mp hr
  exact ⟨r, by rw [List.getElem?_append_left hi]; exact hr, hρ r⟩

/-- Rows in front do not matter. -/
theorem Evolves.append_left {T T' : List α} (hρ : ∀ r, ρ r r) (R : List α)
    (h : Evolves ρ T T') : Evolves ρ (R ++ T) (R ++ T') := by
  intro i r hr
  by_cases hi : i < R.length
  · rw [List.getElem?_append_left hi] at hr ⊢
    exact ⟨r, hr, hρ r⟩
  · rw [List.getElem?_append_right (Nat.le_of_not_lt hi)] at hr ⊢
    exact h _ r hr

/-- Rewriting the rows that match is one, if each rewriting is a step. -/
theorem Evolves.updateWhere (hρ : ∀ r, ρ r r) {p : α → Bool} {f : α → α}
    {T : List α} (h : ∀ r ∈ T, p r = true → ρ r (f r)) :
    Evolves ρ T (updateWhere p f T) := by
  intro i r hr
  refine ⟨if p r then f r else r, ?_, ?_⟩
  · rw [KeyedTable.updateWhere, List.getElem?_map, hr]
    rfl
  · by_cases hp : p r = true
    · rw [if_pos hp]
      exact h r (List.mem_of_getElem? hr) hp
    · rw [if_neg hp]
      exact hρ r

end KeyedTable
