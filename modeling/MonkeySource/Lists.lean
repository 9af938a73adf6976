set_option autoImplicit false

/-!
# Lists as objects

Lists that can be changed where they are. The address of a list is its place among all lists ever
made, so a copy has an address of its own, and a change to one of the two does not show in the
other.
-/

namespace MonkeySource

structure Lists (α : Type) where
  made : List (List α) := []
  deriving DecidableEq, Repr

namespace Lists

variable {α : Type} (lists : Lists α)

def add (items : List α) : Nat × Lists α := (lists.made.length, ⟨lists.made ++ [items]⟩)

/-- What the list at an address holds. Where there is no list, that is nothing. -/
def get (address : Nat) : List α := lists.made[address]?.getD []

def change (address : Nat) (change : List α → List α) : Lists α :=
  ⟨lists.made.modify address change⟩

def copy (address : Nat) : Nat × Lists α := lists.add (lists.get address)

variable {lists}

theorem get_add (items : List α) : (lists.add items).2.get (lists.add items).1 = items := by
  simp [add, get]

theorem get_add_of_lt {address : Nat} (known : address < lists.made.length) (items : List α) :
    (lists.add items).2.get address = lists.get address :=
  congrArg (·.getD []) (List.getElem?_append_left known)

theorem get_change {address : Nat} (known : address < lists.made.length)
    (change : List α → List α) :
    (lists.change address change).get address = change (lists.get address) := by
  simp [Lists.change, get, known]

theorem get_change_of_ne {address other : Nat} (different : address ≠ other)
    (change : List α → List α) : (lists.change address change).get other = lists.get other := by
  simp [Lists.change, get, different]

theorem get_add_cases (items : List α) (address : Nat) :
    (lists.add items).2.get address = lists.get address ∨
      (lists.add items).2.get address = items := by
  rcases Nat.lt_trichotomy address lists.made.length with inside | rfl | outside
  · exact .inl (get_add_of_lt inside items)
  · exact .inr (get_add items)
  · have beyond : (lists.made ++ [items]).length ≤ address := by
      rw [List.length_append]
      exact outside
    have before : lists.get address = [] := by
      rw [get, List.getElem?_eq_none (Nat.le_of_lt outside), Option.getD_none]
    have after : (lists.add items).2.get address = [] := by
      rw [get, add, List.getElem?_eq_none beyond, Option.getD_none]
    exact .inl (after.trans before.symm)

theorem get_change_cases (address other : Nat) (change : List α → List α) :
    (lists.change address change).get other = lists.get other ∨
      (lists.change address change).get other = change (lists.get other) := by
  by_cases here : address = other
  · subst here
    by_cases known : address < lists.made.length
    · exact .inr (get_change known change)
    · simp [Lists.change, get, Nat.le_of_not_lt known]
  · exact .inl (get_change_of_ne here change)

/-- A change to the copy that was just made leaves all other lists as they were. -/
theorem get_change_copy {address other : Nat} (known : other < lists.made.length)
    (change : List α → List α) :
    ((lists.copy address).2.change (lists.copy address).1 change).get other = lists.get other :=
  (get_change_of_ne (Nat.ne_of_gt known) change).trans (get_add_of_lt known _)

/-! ## One list and its copy -/

/-- What a copy of a list holds. -/
def copyOf (items : List α) : List α :=
  let own := Lists.add {} items
  let copy := own.2.copy own.1
  copy.2.get copy.1

/-- What a list holds after a copy of it was changed. -/
def afterCopyChange (items : List α) (change : List α → List α) : List α :=
  let own := Lists.add {} items
  let copy := own.2.copy own.1
  (copy.2.change copy.1 change).get own.1

theorem copyOf_eq (items : List α) : copyOf items = items :=
  (get_add _).trans (get_add items)

theorem afterCopyChange_eq (items : List α) (change : List α → List α) :
    afterCopyChange items change = items :=
  (get_change_copy Nat.zero_lt_one change).trans (get_add items)

end Lists

end MonkeySource
