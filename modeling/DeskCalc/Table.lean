/-!
# The variable table (SPEC_FULL §4.3, §10.5)

A finite map from names to doubles, kept in the order of the UTF-8 bytes of the
names. A name that was never written reads as 0, and nothing is ever removed.

Results:

* `find_insertBinding`: a write is seen under its own name and no other.
* `pairwise_insertBinding`: a write keeps the order.
-/
namespace DeskCalc

/-- A name and the number it stands for. -/
structure Binding where
  name : String
  value : Float
  deriving BEq

def nameBytes (name : String) : List UInt8 := name.toUTF8.data.toList

theorem nameBytes_injective {a b : String} (h : nameBytes a = nameBytes b) : a = b :=
  String.toByteArray_inj.mp (ByteArray.ext (Array.toList_inj.mp h))

/-! ## Lists of bindings in the order of their names -/

/-- One name comes before another if its bytes do. -/
def Binding.precedes (a b : Binding) : Prop := nameBytes a.name < nameBytes b.name

instance (a b : Binding) : Decidable (a.precedes b) :=
  inferInstanceAs (Decidable (nameBytes a.name < nameBytes b.name))

namespace Binding

theorem precedes_trans {a b c : Binding} (h₁ : a.precedes b) (h₂ : b.precedes c) : a.precedes c :=
  List.lt_trans h₁ h₂

theorem precedes_ne {a b : Binding} (h : a.precedes b) : a.name ≠ b.name := fun e => by
  unfold precedes at h; rw [e] at h; exact List.lt_irrefl _ h

theorem precedes_of_not {a b : Binding} (h : ¬ b.precedes a) (hne : a.name ≠ b.name) :
    a.precedes b :=
  Std.lt_of_le_of_ne h (mt nameBytes_injective hne)

end Binding

/-- Puts a binding in its place, over an earlier one of the same name. -/
def insertBinding (b : Binding) : List Binding → List Binding
  | [] => [b]
  | a :: r =>
    if a.name = b.name then b :: r
    else if b.precedes a then b :: a :: r
    else a :: insertBinding b r

theorem mem_insertBinding {b x : Binding} {l : List Binding} (h : x ∈ insertBinding b l) :
    x = b ∨ x ∈ l := by
  induction l with
  | nil => simpa [insertBinding] using h
  | cons a r ih =>
    simp only [insertBinding] at h
    split at h
    · rcases List.mem_cons.mp h with h | h <;> simp [h]
    · split at h
      · simpa using h
      · rcases List.mem_cons.mp h with h | h
        · simp [h]
        · rcases ih h with h | h <;> simp [h]

theorem pairwise_insertBinding {b : Binding} {l : List Binding} (h : l.Pairwise Binding.precedes) :
    (insertBinding b l).Pairwise Binding.precedes := by
  induction l with
  | nil => simp [insertBinding]
  | cons a r ih =>
    obtain ⟨ha, hr⟩ := List.pairwise_cons.mp h
    simp only [insertBinding]
    split
    · rename_i e
      refine List.pairwise_cons.mpr ⟨fun x hx => ?_, hr⟩
      have := ha x hx
      rwa [Binding.precedes, e] at this
    · rename_i hne
      split
      · rename_i hb
        refine List.pairwise_cons.mpr ⟨fun x hx => ?_, h⟩
        rcases List.mem_cons.mp hx with rfl | hx
        · exact hb
        · exact Binding.precedes_trans hb (ha x hx)
      · rename_i hb
        refine List.pairwise_cons.mpr ⟨fun x hx => ?_, ih hr⟩
        rcases mem_insertBinding hx with rfl | hx
        · exact Binding.precedes_of_not hb hne
        · exact ha x hx

/-- The binding of a name in a list. -/
def findBinding (name : String) (l : List Binding) : Option Binding := l.find? (·.name = name)

theorem find_insertBinding (b : Binding) (name : String) (l : List Binding) :
    findBinding name (insertBinding b l) =
      if b.name = name then some b else findBinding name l := by
  induction l with
  | nil => by_cases h : b.name = name <;> simp [insertBinding, findBinding, h]
  | cons a r ih =>
    simp only [insertBinding]
    unfold findBinding at ih ⊢
    split
    · rename_i e
      by_cases h : b.name = name <;> simp [h, e]
    · rename_i hne
      split
      · by_cases h : b.name = name <;> simp [h]
      · by_cases h : a.name = name
        · have : b.name ≠ name := fun e => hne (h.trans e.symm)
          simp [h, this]
        · simpa [h] using ih

/-! ## The table -/

/-- Stands for the program's `VariableTable`, in the order of its `iter`. -/
structure Table where
  bindings : List Binding := []
  sorted : bindings.Pairwise Binding.precedes := by exact .nil

namespace Table

def empty : Table := {}

def find? (t : Table) (name : String) : Option Binding := findBinding name t.bindings

/-- The number last written under the name, or 0.
Stands for the program's `VariableTable.get`. -/
def get (t : Table) (name : String) : Float :=
  match t.find? name with
  | some b => b.value
  | none => 0

/-- Stands for the program's `VariableTable.contains`. -/
def contains (t : Table) (name : String) : Bool := (t.find? name).isSome

/-- The last write under a name wins.
Stands for the program's `VariableTable.set`, less the event that it logs. -/
def write (t : Table) (b : Binding) : Table :=
  ⟨insertBinding b t.bindings, pairwise_insertBinding t.sorted⟩

/-- Stands for the program's `VariableTable.len`. -/
def size (t : Table) : Nat := t.bindings.length

/-- Stands for the program's `VariableTable.is_empty`. -/
def isEmpty (t : Table) : Bool := t.bindings.isEmpty

/-- All bindings in the order of their names.
Stands for the program's `VariableTable.iter`. -/
def toList (t : Table) : List Binding := t.bindings

theorem find?_write (t : Table) (b : Binding) (name : String) :
    (t.write b).find? name = if b.name = name then some b else t.find? name :=
  find_insertBinding ..

theorem get_write (t : Table) (b : Binding) (name : String) :
    (t.write b).get name = if b.name = name then b.value else t.get name := by
  unfold get; rw [find?_write]; by_cases h : b.name = name <;> simp [h]

theorem contains_write (t : Table) (b : Binding) (name : String) :
    (t.write b).contains name = (b.name = name || t.contains name) := by
  unfold contains; rw [find?_write]; by_cases h : b.name = name <;> simp [h]

end Table

end DeskCalc
