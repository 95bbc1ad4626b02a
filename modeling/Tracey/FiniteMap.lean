import Mathlib

/-!
# Finite maps whose values are names, and their mirrors

A table that hands out names (ids, slots) gives each name one owner. A mirror
knows the table only through announcements: an announcement of a name replaces
what the mirror knew under it. When the new owner of a name is inserted after
the old one is removed and the announcement is made, names keep one owner and
the mirror keeps agreeing with the table.
-/

namespace Tracey.FiniteMap

variable {α β γ : Type*} [DecidableEq α]

/-- A finite map with values of one type. -/
abbrev Table (α β : Type*) := AList (fun _ : α => β)

theorem lookup_insert_iff (table : Table α β) (key asked : α) (name found : β) :
    (table.insert key name).lookup asked = some found ↔
      (asked = key ∧ found = name) ∨ (asked ≠ key ∧ table.lookup asked = some found) := by
  by_cases same : asked = key
  · subst same
    simp [AList.lookup_insert, eq_comm]
  · simp [AList.lookup_insert_ne same, same]

theorem lookup_erase_iff (table : Table α β) (key asked : α) (found : β) :
    (table.erase key).lookup asked = some found ↔
      asked ≠ key ∧ table.lookup asked = some found := by
  by_cases same : asked = key
  · subst same
    simp [AList.lookup_erase]
  · simp [AList.lookup_erase_ne same, same]

/-- A key that has a name differs from one that has none. -/
theorem ne_of_lookup {table : Table α β} {key other : α} {name : β}
    (known : table.lookup key = some name) (unknown : table.lookup other = none) : key ≠ other := by
  rintro rfl
  rw [known] at unknown
  cases unknown

theorem lookup_erase_none {table : Table α β} {asked : α} (unknown : table.lookup asked = none)
    (key : α) : (table.erase key).lookup asked = none := by
  by_cases same : asked = key
  · rw [same, AList.lookup_erase]
  · rw [AList.lookup_erase_ne same, unknown]

/-- No name has two owners. Each key has at most one name anyway, so names and
keys correspond. -/
def OneOwner (table : Table α β) : Prop :=
  ∀ key other name, table.lookup key = some name → table.lookup other = some name → key = other

/-- No key owns the name. It may be given away without taking it from anyone. -/
def Unowned (table : Table α β) (name : β) : Prop := ∀ key, table.lookup key ≠ some name

theorem oneOwner_empty : OneOwner (∅ : Table α β) := by
  intro key other name owned
  cases owned

/-- Removing the owner of a name leaves it unowned. A name can so be passed on:
it is taken from its owner first. -/
theorem OneOwner.unowned_erase {table : Table α β} (one : OneOwner table) {owner : α} {name : β}
    (owned : table.lookup owner = some name) : Unowned (table.erase owner) name := by
  intro key held
  obtain ⟨different, before⟩ := (lookup_erase_iff table owner key name).mp held
  exact different (one key owner name before owned)

theorem OneOwner.erase {table : Table α β} (one : OneOwner table) (key : α) :
    OneOwner (table.erase key) := by
  intro first second name firstOwns secondOwns
  exact one first second name ((lookup_erase_iff table key first name).mp firstOwns).2
    ((lookup_erase_iff table key second name).mp secondOwns).2

/-- An unowned name may be given to any key. -/
theorem OneOwner.insert {table : Table α β} (one : OneOwner table) {name : β}
    (unowned : Unowned table name) (key : α) : OneOwner (table.insert key name) := by
  intro first second found firstOwns secondOwns
  rcases (lookup_insert_iff table key first name found).mp firstOwns with
    ⟨rfl, rfl⟩ | ⟨firstOther, firstBefore⟩
  · rcases (lookup_insert_iff table first second found found).mp secondOwns with
      ⟨rfl, _⟩ | ⟨_, secondBefore⟩
    · rfl
    · exact absurd secondBefore (unowned second)
  · rcases (lookup_insert_iff table key second name found).mp secondOwns with
      ⟨rfl, rfl⟩ | ⟨_, secondBefore⟩
    · exact absurd firstBefore (unowned first)
    · exact one first second found firstBefore secondBefore

/-- The mirror shows, under each owned name, the image of its owner. Names that
no key owns may show anything, such as a former owner. -/
def Mirrors (image : α → γ) (table : Table α β) (mirror : β → Option γ) : Prop :=
  ∀ key name, table.lookup key = some name → mirror name = some (image key)

theorem mirrors_empty (image : α → γ) (mirror : β → Option γ) :
    Mirrors image (∅ : Table α β) mirror := by
  intro key name owned
  cases owned

theorem Mirrors.erase {image : α → γ} {table : Table α β} {mirror : β → Option γ}
    (mirrors : Mirrors image table mirror) (key : α) : Mirrors image (table.erase key) mirror := by
  intro asked name owned
  exact mirrors asked name ((lookup_erase_iff table key asked name).mp owned).2

/-- Giving an unowned name to a key and announcing it keeps the mirror right.
What the mirror shows under the other names is not touched. -/
theorem Mirrors.insert [DecidableEq β] {image : α → γ} {table : Table α β}
    {mirror : β → Option γ} (mirrors : Mirrors image table mirror) {name : β}
    (unowned : Unowned table name) (key : α) :
    Mirrors image (table.insert key name) (Function.update mirror name (some (image key))) := by
  intro asked found owned
  rcases (lookup_insert_iff table key asked name found).mp owned with
    ⟨rfl, rfl⟩ | ⟨_, before⟩
  · exact Function.update_self found _ mirror
  · have different : found ≠ name := by
      rintro rfl
      exact unowned asked before
    rw [Function.update_of_ne different]
    exact mirrors asked found before

/-- A new key adds one to the number of keys. -/
theorem length_keys_insert (table : Table α β) (key : α) (name : β)
    (unknown : table.lookup key = none) :
    (table.insert key name).keys.length = table.keys.length + 1 := by
  have absent : key ∉ table.keys := AList.lookup_eq_none.mp unknown
  rw [AList.keys_insert, List.erase_of_not_mem absent, List.length_cons]

/-- Removing a key that is present takes one from the number of keys. -/
theorem length_keys_erase (table : Table α β) (key : α) (name : β)
    (known : table.lookup key = some name) :
    (table.erase key).keys.length + 1 = table.keys.length := by
  have present : key ∈ table.keys := by
    have found : (table.lookup key).isSome := by rw [known]; rfl
    exact AList.lookup_isSome.mp found
  have positive : 0 < table.keys.length := List.length_pos_of_mem present
  rw [AList.keys_erase, List.length_erase_of_mem present]
  omega

end Tracey.FiniteMap
