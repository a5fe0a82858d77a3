import Mathlib
import DeskCalc.Table

/-!
# The table as a finite map

Results:
* `ext_find?`: a table is what it says about each name.
* `size_write`: a write adds one binding if its name is new, and none otherwise.
* `foldl_write_perm`: writes under different names come to the same in any order.
* `find?_foldl_write`: after a sequence of writes a name has the last one under it.
-/
namespace DeskCalc

theorem insertBinding_perm {b : Binding} {l : List Binding} (h : ∀ a ∈ l, a.name ≠ b.name) :
    (insertBinding b l).Perm (b :: l) := by
  induction l with
  | nil => exact .refl _
  | cons a r ih =>
    rw [insertBinding, if_neg (h a (by simp))]
    split
    · exact .refl _
    · exact ((ih fun x hx => h x (by simp [hx])).cons a).trans (.swap b a r)

instance : Std.Symm fun a b : Binding => a.name ≠ b.name := ⟨fun _ _ h => h.symm⟩

namespace Table

/-- A new name adds one binding. -/
theorem write_perm {t : Table} {b : Binding} (h : ∀ a ∈ t.toList, a.name ≠ b.name) :
    (t.write b).toList.Perm (b :: t.toList) := insertBinding_perm h

/-- No name stands in a table twice. -/
theorem pairwise_ne (t : Table) : t.toList.Pairwise (fun a b => a.name ≠ b.name) :=
  t.sorted.imp Binding.precedes_ne

theorem nodup_toList (t : Table) : t.toList.Nodup := t.pairwise_ne.imp fun hne e => hne (congrArg Binding.name e)

theorem nodup_names (t : Table) : (t.toList.map Binding.name).Nodup := List.pairwise_map.mpr t.pairwise_ne

/-- The order of the bindings is that of their names. -/
theorem toList_unique {t : Table} {l : List Binding} (hl : l.Pairwise Binding.precedes)
    (h : t.toList.Perm l) : t.toList = l := by
  refine List.Perm.eq_of_pairwise (fun a b _ _ hab hba => ?_) t.sorted hl h
  exact absurd rfl (Binding.precedes_ne (Binding.precedes_trans hab hba))

/-! ## Tables by their names -/

theorem mem_of_find? {t : Table} {x : String} {b : Binding} (h : t.find? x = some b) :
    b ∈ t.toList ∧ b.name = x :=
  ⟨List.mem_of_find?_eq_some h, by simpa using List.find?_some h⟩

theorem mem_toList_iff {t : Table} {b : Binding} : b ∈ t.toList ↔ t.find? b.name = some b := by
  refine ⟨fun h => ?_, fun h => (mem_of_find? h).1⟩
  cases hf : t.find? b.name with
  | none => simpa using List.find?_eq_none.mp hf b h
  | some a =>
    obtain ⟨ha, hn⟩ := mem_of_find? hf
    -- two bindings of one name are the same
    by_contra hne
    exact t.pairwise_ne.forall ha h (fun e => hne (congrArg some e)) hn

theorem contains_iff {t : Table} {x : String} : t.contains x ↔ ∃ b ∈ t.toList, b.name = x := by
  rw [contains, Option.isSome_iff_exists]
  exact ⟨fun ⟨b, h⟩ => ⟨b, mem_of_find? h⟩, fun ⟨b, h, e⟩ => ⟨b, e ▸ mem_toList_iff.mp h⟩⟩

/-- Tables that say the same about each name are the same. -/
theorem ext_find? {t₁ t₂ : Table} (h : ∀ x, t₁.find? x = t₂.find? x) : t₁ = t₂ := by
  have hp : t₁.toList.Perm t₂.toList :=
    (List.perm_ext_iff_of_nodup t₁.nodup_toList t₂.nodup_toList).mpr fun b => by
      rw [mem_toList_iff, mem_toList_iff, h]
  obtain ⟨l, hl⟩ := t₁
  cases toList_unique t₂.sorted hp
  rfl

/-! ## Writes one after the other -/

/-- The second of two writes under one name is the one that counts. -/
theorem write_write (t : Table) {a b : Binding} (h : a.name = b.name) : (t.write a).write b = t.write b := by
  refine ext_find? fun x => ?_
  rw [find?_write, find?_write, find?_write, h]
  split <;> rfl

theorem write_comm (t : Table) {a b : Binding} (h : a.name ≠ b.name) :
    (t.write a).write b = (t.write b).write a := by
  refine ext_find? fun x => ?_
  simp only [find?_write]
  split <;> split
  · rename_i h₁ h₂
    exact absurd (h₂.trans h₁.symm) h
  all_goals rfl

/-- Writes under different names come to the same in any order. -/
theorem foldl_write_perm (t : Table) {bs bs' : List Binding} (h : bs.Perm bs')
    (hd : bs.Pairwise fun a b => a.name ≠ b.name) : bs.foldl write t = bs'.foldl write t := by
  refine h.foldl_eq' (fun a ha b hb t => ?_) t
  rcases eq_or_ne a b with rfl | hne
  · rfl
  · exact write_comm t (hd.forall ha hb hne)

/-- After a sequence of writes a name has the last one under it. -/
theorem find?_foldl_write (t : Table) (bs : List Binding) (x : String) :
    (bs.foldl write t).find? x = (bs.filter (·.name = x)).getLast?.or (t.find? x) := by
  induction bs generalizing t with
  | nil => rfl
  | cons b r ih =>
    rw [List.foldl_cons, ih, find?_write]
    by_cases hx : b.name = x
    · simp only [hx, if_true, List.filter_cons, decide_true, List.getLast?_cons]
      cases (r.filter (·.name = x)).getLast? <;> rfl
    · simp [hx]

/-- A write adds a binding if its name is new. -/
theorem size_write (t : Table) (b : Binding) :
    (t.write b).size = if t.contains b.name then t.size else t.size + 1 := by
  split
  · rename_i h
    have hp : ((t.write b).toList.map Binding.name).Perm (t.toList.map Binding.name) := by
      refine (List.perm_ext_iff_of_nodup (nodup_names _) t.nodup_names).mpr fun x => ?_
      rw [List.mem_map, List.mem_map, ← contains_iff, ← contains_iff, contains_write]
      by_cases hx : b.name = x
      · simp [← hx, h]
      · simp [hx]
    simpa [size, toList] using hp.length_eq
  · rename_i h
    exact (write_perm fun a ha e => h (contains_iff.mpr ⟨a, ha, e⟩)).length_eq

end Table

end DeskCalc
