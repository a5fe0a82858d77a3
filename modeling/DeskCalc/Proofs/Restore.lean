import DeskCalc.Proofs.Readback
import DeskCalc.Proofs.Runs
import DeskCalc.Proofs.Tables

/-!
# Saving and restoring the variables

The texts of the variables, one after the other as `vars` lists them, are lines that
write them again.

Results:
* `evaluate_text`: the text of a variable writes it and nothing else.
* `restore`: the texts of all variables, in any order, make the same table.
-/
namespace DeskCalc

/-! ## Texts of variables -/

namespace Binding

/-- A variable as it is listed. -/
def text (b : Binding) : String := b.name ++ " = " ++ displayNumber b.value

/-- The variable that its text writes. -/
def restored (b : Binding) : Binding := ⟨b.name, unsignedZero b.value⟩

/-- The text of a variable derives as an assignment. -/
theorem exists_line {b : Binding} (hb : IsIdentifier b.name.toList) (hf : b.value.isFinite) :
    ∃ d : Line, .ofList d.text = b.text ∧ d.nesting = 0 ∧ d.name = b.name ∧
      ∀ t, d.value t = unsignedZero b.value := by
  obtain ⟨l, hl, -, ht, hv⟩ := exists_literal hf
  refine ⟨.assign (.name b.name.toList hb) 1 1 (Phrase.literal l hl).ofValue 0, ?_, rfl, ?_, fun t => hv⟩
  · apply String.toList_inj.mp
    simp [Line.text, Target.text, Phrase.text, spaces, text, ht]
  · simp [Line.name, Target.target]

end Binding

namespace Session

/-- The text of a variable writes it, whatever the session. -/
theorem evaluate_text (s : Session) {b : Binding} (hb : IsIdentifier b.name.toList) (hf : b.value.isFinite) :
    (∃ a, (s.evaluate b.text).result = .ok a) ∧
    (s.evaluate b.text).session.table = s.table.write b.restored := by
  obtain ⟨d, ht, hn, hname, hv⟩ := Binding.exists_line hb hf
  obtain ⟨text, h⟩ := evaluate_of_line (s := s) ht (hn ▸ Nat.zero_le _)
  rw [h, hname, hv]
  exact ⟨⟨_, rfl⟩, rfl⟩

/-- The texts of new variables add them to those of the session. -/
theorem after_texts (s : Session) (bs : List Binding)
    (hb : ∀ b ∈ bs, IsIdentifier b.name.toList ∧ b.value.isFinite)
    (hne : bs.Pairwise (fun a b => a.name ≠ b.name)) (hs : ∀ b ∈ bs, ∀ a ∈ s.table.toList, a.name ≠ b.name) :
    (∀ e ∈ s.evaluations (bs.map Binding.text), ∃ a, e.result = .ok a) ∧
    (s.after (bs.map Binding.text)).table.toList.Perm (s.table.toList ++ bs.map Binding.restored) := by
  induction bs generalizing s with
  | nil => exact ⟨by simp [evaluations], by simp [after]⟩
  | cons b r ih =>
    obtain ⟨hfirst, hr⟩ := List.pairwise_cons.mp hne
    obtain ⟨hok, ht⟩ := s.evaluate_text (hb b (by simp)).1 (hb b (by simp)).2
    have hp : (s.evaluate b.text).session.table.toList.Perm (b.restored :: s.table.toList) := by
      rw [ht]
      exact Table.write_perm (hs b (by simp))
    obtain ⟨h₁, h₂⟩ := ih (s.evaluate b.text).session (fun x hx => hb x (by simp [hx])) hr (by
      intro x hx a ha
      rcases List.mem_cons.mp (hp.mem_iff.mp ha) with rfl | ha
      · exact hfirst x hx
      · exact hs x (by simp [hx]) a ha)
    refine ⟨?_, ?_⟩
    · intro e he
      rcases List.mem_cons.mp he with rfl | he
      · exact hok
      · exact h₁ e he
    · refine h₂.trans ((hp.append_right _).trans ?_)
      exact List.perm_middle.symm

/-- The texts of all variables, in any order, make the same variables in a new
session, but for the sign of zero. -/
theorem restore {s : Session} (hs : s.Reachable) (finite : ∀ b ∈ s.table.toList, b.value.isFinite)
    (bs : List Binding) (perm : bs.Perm s.table.toList) :
    (∀ e ∈ ({} : Session).evaluations (bs.map Binding.text), ∃ a, e.result = .ok a) ∧
    (({} : Session).after (bs.map Binding.text)).table.toList = s.table.toList.map Binding.restored ∧
    ∀ b ∈ s.table.toList, b.restored.value == b.value := by
  have sound : ∀ b ∈ bs, IsIdentifier b.name.toList ∧ b.value.isFinite := fun b hb =>
    ⟨hs.identifiers b (perm.mem_iff.mp hb), finite b (perm.mem_iff.mp hb)⟩
  have distinct : bs.Pairwise (fun a b => a.name ≠ b.name) :=
    s.table.pairwise_ne.perm perm.symm fun h => h.symm
  obtain ⟨h₁, h₂⟩ := ({} : Session).after_texts bs sound distinct (fun _ _ a ha => by cases ha)
  refine ⟨h₁, ?_, fun b hb => unsignedZero_beq (finite b hb)⟩
  -- The names are what they were, so the order is, too.
  exact Table.toList_unique (List.pairwise_map.mpr s.table.sorted) (h₂.trans (perm.map _))

/-- A zero loses its sign, and the order of the lines does not matter. -/
theorem restore_of_two :
    (({} : Session).after ["x = -2.5", "z = -0"]).table.toList = [⟨"x", -2.5⟩, ⟨"z", -0⟩] ∧
    (∀ e ∈ ({} : Session).evaluations ["z = 0", "x = -2.5"], ∃ a, e.result = .ok a) ∧
    (({} : Session).after ["z = 0", "x = -2.5"]).table.toList = [⟨"x", -2.5⟩, ⟨"z", 0⟩] := by
  have hs : (({} : Session).after ["x = -2.5", "z = -0"]).table.toList = [⟨"x", -2.5⟩, ⟨"z", -0⟩] := by
    decide +kernel
  obtain ⟨h₁, h₂, -⟩ := restore ⟨["x = -2.5", "z = -0"], rfl⟩ (by rw [hs]; decide) [⟨"z", -0⟩, ⟨"x", -2.5⟩]
    (hs ▸ .swap _ _ _)
  have ht : [⟨"z", -0⟩, ⟨"x", -2.5⟩].map Binding.text = ["z = 0", "x = -2.5"] := by decide +kernel
  rw [ht] at h₁ h₂
  refine ⟨hs, h₁, ?_⟩
  rw [h₂, hs]
  decide

end Session

end DeskCalc
