import Mathlib.Data.List.Basic

/-!
# Counted references

Shared values with a count of their strong references. A value lives while its count is positive. A
weak reference does not count: it can be upgraded to a strong one while the value lives. Its place
is not given to another value, so a value that has died stays dead.

* `new`, `clone`, `drop`, `upgrade`: the operations on the table of counts.
* `live_new`, `live_clone`, `live_of_drop`: which values live after an operation. Only a drop ends
  a life, and only that of its own value.
* `upgrade_eq_some`, `upgrade_eq_none`: an upgrade succeeds exactly while the value lives.

The values themselves are not in the table; it is for whoever keeps a value beside its count.
-/

namespace GroupAgent.Lib

/-- A reference to a shared value. -/
structure Arc (α : Type) where
  address : Nat
  value : α
  deriving DecidableEq, Repr

/-- The strong count at each address. -/
structure StrongCounts where
  strong : List Nat
  deriving DecidableEq, Repr

namespace StrongCounts

variable {α : Type} (self : StrongCounts)

def strongCount (arc : Arc α) : Nat := (self.strong[arc.address]?).getD 0

/-- The value lives. -/
abbrev Live (arc : Arc α) : Prop := 0 < self.strongCount arc

/-- `Arc::new`. -/
def new (value : α) : Arc α × StrongCounts := (⟨self.strong.length, value⟩, ⟨self.strong ++ [1]⟩)

/-- `Arc::clone`. -/
def clone (arc : Arc α) : StrongCounts := ⟨self.strong.modify arc.address (· + 1)⟩

/-- A strong reference is dropped. -/
def drop (arc : Arc α) : StrongCounts := ⟨self.strong.modify arc.address (· - 1)⟩

/-- `Weak::upgrade`. -/
def upgrade (arc : Arc α) : Option StrongCounts := if self.Live arc then some (self.clone arc) else none

variable {self} {a b : Arc α}

theorem Live.lt (h : self.Live a) : a.address < self.strong.length := by
  by_contra hlt
  simp [Live, strongCount, List.getElem?_eq_none (Nat.not_lt.mp hlt)] at h

@[simp] theorem length_clone : (self.clone a).strong.length = self.strong.length :=
  List.length_modify ..

@[simp] theorem length_drop : (self.drop a).strong.length = self.strong.length :=
  List.length_modify ..

@[simp] theorem length_new (value : α) : (self.new value).2.strong.length = self.strong.length + 1 :=
  List.length_append

/-- A live value is cloned, and nothing comes to life. -/
theorem live_clone (ha : self.Live a) : (self.clone a).Live b ↔ self.Live b := by
  have hlt := ha.lt
  unfold Live strongCount clone at *
  rw [List.getElem?_modify]
  by_cases h : a.address = b.address
  · rw [h] at ha hlt
    simp [h, List.getElem?_eq_getElem hlt] at ha ⊢
    omega
  · simp [h]

/-- What is dropped may die, and nothing comes to life. -/
theorem live_of_drop (h : (self.drop a).Live b) : self.Live b := by
  unfold Live strongCount drop at *
  rw [List.getElem?_modify] at h
  by_cases hab : a.address = b.address
  · simp only [hab, if_pos] at h
    cases hb : self.strong[b.address]? with
    | none => simp [hb] at h
    | some n =>
      simp only [hb, Option.map_eq_map, Option.map_some, Option.getD_some] at h ⊢
      omega
  · simpa [hab] using h

theorem live_new (self : StrongCounts) (value : α) (hb : b.address < self.strong.length) :
    (self.new value).2.Live b ↔ self.Live b := by
  simp [Live, strongCount, new, List.getElem?_append_left hb]

theorem upgrade_eq_some {counts : StrongCounts} :
    self.upgrade a = some counts ↔ self.Live a ∧ counts = self.clone a := by
  unfold upgrade
  by_cases h : self.Live a <;> simp [h, eq_comm]

theorem upgrade_eq_none : self.upgrade a = none ↔ ¬self.Live a := by
  simp [upgrade]

end StrongCounts

end GroupAgent.Lib
