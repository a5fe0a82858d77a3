import DeskCalc.Proofs.Tables

/-!
# What a table lists

A table that came about by writes is the map of each name to the number last written under
it. It lists every such name once, in the order of the bytes, so the order of the writes
shows only where they are under one name.

Results:
* `filter_toList`: a name is listed once, with the number that it reads as.
* `size_eq_card`: a table has as many bindings as names.
* `find?_ofWrites`, `contains_ofWrites`: what the last write under a name leaves there.
* `ofWrites_listed`: the table that a sequence of writes makes, and its listing.
-/
namespace DeskCalc

/-- The number last written under the name, if one ever was. -/
def lastWritten (name : String) (bs : List Binding) : Option Float :=
  (bs.filter (·.name = name)).getLast?.map Binding.value

namespace Table

/-! ## Names in a listing -/

section

variable {t : Table} {x : String}

theorem contains_of_mem {b : Binding} (h : b ∈ t.toList) : t.contains b.name := contains_iff.mpr ⟨b, h, rfl⟩

theorem find?_of_contains (h : t.contains x) : t.find? x = some ⟨x, t.get x⟩ := by
  obtain ⟨b, hb⟩ := Option.isSome_iff_exists.mp h
  obtain ⟨-, rfl⟩ := mem_of_find? hb
  simp only [get, hb]

/-- A name is listed once, with the number that it reads as, or not at all. -/
theorem filter_toList (t : Table) (x : String) :
    t.toList.filter (·.name = x) = if t.contains x then [⟨x, t.get x⟩] else [] := by
  split
  · rename_i h
    refine List.perm_singleton.mp ((List.perm_ext_iff_of_nodup (t.nodup_toList.filter _)
      (List.nodup_singleton _)).mpr fun b => ?_)
    have hx := find?_of_contains h
    simp only [List.mem_filter, decide_eq_true_eq, List.mem_singleton, mem_toList_iff]
    constructor
    · rintro ⟨hb, rfl⟩
      exact Option.some.inj (hb.symm.trans hx)
    · rintro rfl
      exact ⟨hx, rfl⟩
  · rename_i h
    refine List.filter_eq_nil_iff.mpr fun b hb e => h ?_
    exact of_decide_eq_true e ▸ contains_of_mem hb

/-- A table has as many bindings as names. -/
theorem size_eq_card {names : List String} (h : ∀ x, t.contains x ↔ x ∈ names) :
    t.size = names.toFinset.card := by
  have hnames : (t.toList.map Binding.name).toFinset = names.toFinset := by
    ext x
    rw [List.mem_toFinset, List.mem_toFinset, ← h, contains_iff, List.mem_map]
  rw [← hnames, List.toFinset_card_of_nodup t.nodup_names, List.length_map]
  rfl

theorem isEmpty_iff : t.isEmpty ↔ t.size = 0 := List.isEmpty_iff.trans List.length_eq_zero_iff.symm

end

/-! ## Tables made by writes -/

/-- The table after the bindings have been written into an empty one, one after the other. -/
def ofWrites (bs : List Binding) : Table := bs.foldl write empty

variable (bs : List Binding) (x : String)

/-- Under a name stands the number last written there. -/
theorem find?_ofWrites : (ofWrites bs).find? x = (lastWritten x bs).map (⟨x, ·⟩) := by
  rw [ofWrites, find?_foldl_write, lastWritten]
  cases h : (bs.filter (·.name = x)).getLast? with
  | none => rfl
  | some b =>
    obtain ⟨name, value⟩ := b
    obtain rfl : name = x := by simpa using (List.mem_filter.mp (List.mem_of_getLast? h)).2
    rfl

theorem contains_ofWrites : (ofWrites bs).contains x ↔ x ∈ bs.map Binding.name := by
  rw [contains, find?_ofWrites, Option.isSome_map, lastWritten, Option.isSome_map, List.getLast?_isSome, ne_eq,
    List.filter_eq_nil_iff, List.mem_map]
  simp

theorem get_ofWrites : (ofWrites bs).get x = (lastWritten x bs).getD 0 := by
  rw [get, find?_ofWrites]
  cases lastWritten x bs <;> rfl

/-- Of a sequence of writes only the last number under each name shows. -/
theorem ofWrites_congr {bs bs' : List Binding} (h : ∀ x, lastWritten x bs = lastWritten x bs') :
    ofWrites bs = ofWrites bs' :=
  ext_find? fun x => by rw [find?_ofWrites, find?_ofWrites, h]

/-- The table that a sequence of writes makes has just the names written, each with the number
last written under it, and any other name reads as 0. It lists each of its names once, with
the number that the name reads as, and the names ascend strictly by their bytes. Sequences
that leave the same numbers under the same names make the same listing. -/
theorem ofWrites_listed (bs : List Binding) :
    (∀ x, (ofWrites bs).contains x ↔ x ∈ bs.map Binding.name) ∧
    (∀ x, (ofWrites bs).get x = (lastWritten x bs).getD 0) ∧
    (ofWrites bs).size = (bs.map Binding.name).toFinset.card ∧
    ((ofWrites bs).isEmpty ↔ (ofWrites bs).size = 0) ∧
    (∀ x, (ofWrites bs).toList.filter (·.name = x) =
      if (ofWrites bs).contains x then [⟨x, (ofWrites bs).get x⟩] else []) ∧
    ((ofWrites bs).toList.map Binding.name).Pairwise (fun x y => nameBytes x < nameBytes y) ∧
    ∀ bs' : List Binding, (∀ x, lastWritten x bs' = lastWritten x bs) →
      (ofWrites bs').toList = (ofWrites bs).toList :=
  ⟨contains_ofWrites bs, get_ofWrites bs, size_eq_card (contains_ofWrites bs), isEmpty_iff, filter_toList _,
    List.pairwise_map.mpr (ofWrites bs).sorted, fun _ h => congrArg toList (ofWrites_congr h)⟩

/-- A name in capitals is another one, and it comes first; letters with accents come last.
What was written under `x` at first does not show. -/
theorem ofWrites_listed_of_four :
    (ofWrites [⟨"x", 1⟩, ⟨"é", 2⟩, ⟨"X", 3⟩, ⟨"x", 4⟩]).toList = [⟨"X", 3⟩, ⟨"x", 4⟩, ⟨"é", 2⟩] ∧
    (ofWrites [⟨"x", 4⟩, ⟨"X", 3⟩, ⟨"é", 2⟩]).toList = [⟨"X", 3⟩, ⟨"x", 4⟩, ⟨"é", 2⟩] ∧
    (ofWrites [⟨"x", 1⟩, ⟨"é", 2⟩, ⟨"X", 3⟩, ⟨"x", 4⟩]).size = 3 := by
  have hlist : (ofWrites [⟨"x", 1⟩, ⟨"é", 2⟩, ⟨"X", 3⟩, ⟨"x", 4⟩]).toList = [⟨"X", 3⟩, ⟨"x", 4⟩, ⟨"é", 2⟩] := by
    rfl
  obtain ⟨-, -, hsize, -, -, -, hsame⟩ := ofWrites_listed [⟨"x", 1⟩, ⟨"é", 2⟩, ⟨"X", 3⟩, ⟨"x", 4⟩]
  refine ⟨hlist, (hsame _ fun x => ?_).trans hlist, hsize.trans (by decide)⟩
  simp only [lastWritten, List.filter_cons, List.filter_nil, decide_eq_true_eq]
  by_cases h₁ : "x" = x
  · subst h₁; decide
  · by_cases h₂ : "é" = x
    · subst h₂; decide
    · by_cases h₃ : "X" = x
      · subst h₃; decide
      · simp [h₁, h₂, h₃]

end Table

end DeskCalc
