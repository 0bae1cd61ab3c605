import JobScheduling.KeyedTable

/-! # Histories of observations

    Rows keep changing while observers look at them.  A history lists what was
    observed, oldest first.  An observation shows versions of rows, and knows
    how much had been observed when it began.

    * `Sight.Advancing` — nothing observed shows a version older than one that had
      been shown before it began;
    * `Sight.Lasting` — whatever was shown, the table still has, in the same version
      or a later one;
    * `upToDate_of_mem` — so the table is as new as anything shown;
    * `Sight.Advancing.concat` — and to show versions that were up to date at some
      time since the observation began keeps the history advancing;
    * `Sight.Coherent.step` — the rule for one step of a system whose observations
      are fixed some time before they are made: what is shown is current, or
      was pledged. -/

namespace Histories

open KeyedTable

/-- How an observation is read. -/
structure Sight (ω ν κ : Type*) where
  shows : ω → List ν
  since : ω → Nat
  key : ν → κ
  later : ν → ν → Prop

variable {ω ν κ : Type*} (v : Sight ω ν κ)

/-- The version is no older than what the first `n` observations show. -/
def Sight.UpToDate (seen : List ω) (n : Nat) (r : ν) : Prop :=
  ∀ (i : Nat) (o : ω), i < n → seen[i]? = some o →
    ∀ u ∈ v.shows o, v.key u = v.key r → v.later u r

/-- The table has what was shown, or later versions of it. -/
def Sight.Lasting (seen : List ω) (T : List ν) : Prop :=
  ∀ o ∈ seen, ∀ u ∈ v.shows o, ∃ r ∈ T, v.key r = v.key u ∧ v.later u r

/-- What an observation shows is no older than what had been shown before it
    began. -/
def Sight.Advancing (seen : List ω) : Prop :=
  ∀ (i j : Nat) (o o' : ω), seen[i]? = some o → seen[j]? = some o' →
    i < v.since o' → ∀ u ∈ v.shows o, ∀ r ∈ v.shows o',
      v.key u = v.key r → v.later u r

variable {v}

/-! ## Up to date -/

/-- What is observed afterwards does not matter. -/
theorem Sight.UpToDate.append {seen : List ω} {n : Nat} {r : ν}
    (h : v.UpToDate seen n r) (hn : n ≤ seen.length) (os : List ω) :
    v.UpToDate (seen ++ os) n r := by
  intro i o hi ho
  rw [List.getElem?_append_left (Nat.lt_of_lt_of_le hi hn)] at ho
  exact h i o hi ho

/-- A current version is as new as anything shown. -/
theorem upToDate_of_mem {seen : List ω} {T : List ν} {r : ν}
    (hT : (T.map v.key).Nodup) (hlast : v.Lasting seen T) (hr : r ∈ T)
    (n : Nat) : v.UpToDate seen n r := by
  intro i o _ ho u hu hkey
  obtain ⟨w, hw, hwkey, hlater⟩ := hlast o (List.mem_of_getElem? ho) u hu
  have heq : w = r := List.inj_on_of_nodup_map hT hw hr (hwkey.trans hkey)
  rw [← heq]
  exact hlater

/-- Nothing that was shown is a version of a row that is not there yet. -/
theorem upToDate_of_new {seen : List ω} {T : List ν} {r : ν}
    (hlast : v.Lasting seen T) (hr : ∀ w ∈ T, v.key w ≠ v.key r) (n : Nat) :
    v.UpToDate seen n r := by
  intro i o _ ho u hu hkey
  obtain ⟨w, hw, hwkey, -⟩ := hlast o (List.mem_of_getElem? ho) u hu
  exact absurd (hwkey.trans hkey) (hr w hw)

/-! ## What lasts -/

/-- One more observation of rows that are still there keeps it. -/
theorem Sight.Lasting.concat {seen : List ω} {T : List ν} {o : ω}
    (h : v.Lasting seen T)
    (ho : ∀ u ∈ v.shows o, ∃ r ∈ T, v.key r = v.key u ∧ v.later u r) :
    v.Lasting (seen ++ [o]) T := by
  intro o' ho'
  rcases List.mem_append.mp ho' with hold | hnew
  · exact h o' hold
  · rw [List.mem_singleton.mp hnew]
    exact ho

/-- A version that a row still has, or a later one, lasts while the table
    evolves along `later`. -/
theorem exists_later {ρ : ν → ν → Prop} {T T' : List ν}
    (hkey : ∀ r r', ρ r r' → v.key r' = v.key r)
    (hlater : ∀ u r r', v.later u r → ρ r r' → v.later u r')
    (hT : Evolves ρ T T') {u : ν}
    (hu : ∃ r ∈ T, v.key r = v.key u ∧ v.later u r) :
    ∃ r ∈ T', v.key r = v.key u ∧ v.later u r := by
  obtain ⟨r, hr, hrkey, hrlater⟩ := hu
  obtain ⟨r', hr', hrel⟩ := hT.mem hr
  exact ⟨r', hr', (hkey r r' hrel).trans hrkey, hlater u r r' hrlater hrel⟩

/-- So does every step of the rows. -/
theorem Sight.Lasting.evolves {ρ : ν → ν → Prop} {seen : List ω} {T T' : List ν}
    (hkey : ∀ r r', ρ r r' → v.key r' = v.key r)
    (hlater : ∀ u r r', v.later u r → ρ r r' → v.later u r')
    (hT : Evolves ρ T T') (h : v.Lasting seen T) : v.Lasting seen T' :=
  fun o ho u hu => exists_later hkey hlater hT (h o ho u hu)

/-! ## Advancing -/

/-- One more observation, of versions that were up to date when it began. -/
theorem Sight.Advancing.concat {seen : List ω} {o : ω} (h : v.Advancing seen)
    (hpast : ∀ o' ∈ seen, v.since o' ≤ seen.length)
    (hnow : v.since o ≤ seen.length)
    (hnew : ∀ r ∈ v.shows o, v.UpToDate seen (v.since o) r) :
    v.Advancing (seen ++ [o]) := by
  intro i j a b ha hb hi u hu r hr hkey
  have hj := (List.getElem?_eq_some_iff.mp hb).1
  rw [List.length_append, List.length_singleton] at hj
  by_cases hlast : j = seen.length
  · -- the new observation: what was shown before it began is older
    rw [hlast, List.getElem?_concat_length] at hb
    cases hb
    rw [List.getElem?_append_left (Nat.lt_of_lt_of_le hi hnow)] at ha
    exact hnew r hr i a hi ha u hu hkey
  · have hold : j < seen.length := by omega
    rw [List.getElem?_append_left hold] at hb
    have hbefore : i < seen.length :=
      Nat.lt_of_lt_of_le hi (hpast b (List.mem_of_getElem? hb))
    rw [List.getElem?_append_left hbefore] at ha
    exact h i j a b ha hb hi u hu r hr hkey

/-! ## Versions that are still to be shown -/

/-- A history over a table, with the versions that observations begun so far
    are going to show. -/
structure Sight.Coherent (v : Sight ω ν κ) (T : List ν) (seen : List ω)
    (pledged : Nat → ν → Prop) : Prop where
  past : ∀ o ∈ seen, v.since o ≤ seen.length
  lasting : v.Lasting seen T
  advancing : v.Advancing seen
  begun : ∀ n r, pledged n r → n ≤ seen.length
  kept : ∀ n r, pledged n r → ∃ r' ∈ T, v.key r' = v.key r ∧ v.later r r'
  upToDate : ∀ n r, pledged n r → v.UpToDate seen n r

/-- A pledge of this step: of a current version, or of a row that this step
    adds. -/
structure Sight.Pledge (v : Sight ω ν κ) (T T' : List ν) (seen : List ω)
    (n : Nat) (r : ν) : Prop where
  begun : n ≤ seen.length
  current : r ∈ T ∨ ∀ w ∈ T, v.key w ≠ v.key r
  kept : r ∈ T'

/-- An observation of this step: of current versions, and pledged ones. -/
structure Sight.Observed (v : Sight ω ν κ) (T : List ν) (seen : List ω)
    (pledged : Nat → ν → Prop) (o : ω) : Prop where
  begun : v.since o ≤ seen.length
  shown : ∀ r ∈ v.shows o, r ∈ T ∨ pledged (v.since o) r

/-- What is stored, or pledged to be shown, is up to date with what was seen. -/
theorem Sight.Coherent.upToDate_or {T : List ν} {seen : List ω}
    {pledged : Nat → ν → Prop} (h : v.Coherent T seen pledged)
    (hT : (T.map v.key).Nodup) {n : Nat} {r : ν} (hr : r ∈ T ∨ pledged n r) :
    v.UpToDate seen n r := by
  rcases hr with hcurrent | hpledged
  · exact upToDate_of_mem hT h.lasting hcurrent n
  · exact h.upToDate n r hpledged

/-- Before its observation is added, a step keeps the history coherent. -/
theorem Sight.Coherent.evolves {ρ : ν → ν → Prop} {T T' : List ν} {seen : List ω}
    {pledged pledged' : Nat → ν → Prop} (h : v.Coherent T seen pledged)
    (hkey : ∀ r r', ρ r r' → v.key r' = v.key r)
    (hrefl : ∀ r, v.later r r)
    (hlater : ∀ u r r', v.later u r → ρ r r' → v.later u r')
    (hT : (T.map v.key).Nodup) (hT' : Evolves ρ T T')
    (hnew : ∀ n r, pledged' n r → pledged n r ∨ v.Pledge T T' seen n r) :
    v.Coherent T' seen pledged' where
  past := h.past
  lasting := h.lasting.evolves hkey hlater hT'
  advancing := h.advancing
  begun := by
    intro n r hp
    rcases hnew n r hp with hold | hpledge
    · exact h.begun n r hold
    · exact hpledge.begun
  kept := by
    intro n r hp
    rcases hnew n r hp with hold | hpledge
    · exact exists_later hkey hlater hT' (h.kept n r hold)
    · exact ⟨r, hpledge.kept, rfl, hrefl r⟩
  upToDate := by
    intro n r hp
    rcases hnew n r hp with hold | hpledge
    · exact h.upToDate n r hold
    · rcases hpledge.current with hmem | habsent
      · exact upToDate_of_mem hT h.lasting hmem n
      · exact upToDate_of_new h.lasting habsent n

/-- **The rule for one step**: the table evolves, at most one observation is
    made, and what is pledged was pledged or is a pledge of this step. -/
theorem Sight.Coherent.step {ρ : ν → ν → Prop} {T T' : List ν} {seen seen' : List ω}
    {pledged pledged' : Nat → ν → Prop} (h : v.Coherent T seen pledged)
    (hkey : ∀ r r', ρ r r' → v.key r' = v.key r)
    (hrefl : ∀ r, v.later r r)
    (hlater : ∀ u r r', v.later u r → ρ r r' → v.later u r')
    (hT : (T.map v.key).Nodup) (hT' : Evolves ρ T T')
    (hnew : ∀ n r, pledged' n r → pledged n r ∨ v.Pledge T T' seen n r)
    (hseen : seen' = seen
      ∨ ∃ o, seen' = seen ++ [o] ∧ v.Observed T seen pledged o) :
    v.Coherent T' seen' pledged' := by
  have hbase : v.Coherent T' seen pledged' :=
    h.evolves hkey hrefl hlater hT hT' hnew
  rcases hseen with heq | ⟨o, heq, ho⟩
  · rw [heq]
    exact hbase
  · rw [heq]
    have hlen : seen.length ≤ (seen ++ [o]).length := by
      rw [List.length_append]
      omega
    refine ⟨?_, ?_, ?_, ?_, hbase.kept, ?_⟩
    · intro o' ho'
      rcases List.mem_append.mp ho' with hold | hlast
      · exact Nat.le_trans (h.past o' hold) hlen
      · rw [List.mem_singleton.mp hlast]
        exact Nat.le_trans ho.begun hlen
    · refine hbase.lasting.concat ?_
      intro u hu
      refine exists_later hkey hlater hT' ?_
      rcases ho.shown u hu with hcurrent | hpledged
      · exact ⟨u, hcurrent, rfl, hrefl u⟩
      · exact h.kept _ u hpledged
    · exact h.advancing.concat h.past ho.begun
        (fun r hr => h.upToDate_or hT (ho.shown r hr))
    · exact fun n r hp => Nat.le_trans (hbase.begun n r hp) hlen
    · exact fun n r hp => (hbase.upToDate n r hp).append (hbase.begun n r hp) _

end Histories
