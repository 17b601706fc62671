import Mathlib.Data.List.Infix
import Mathlib.Tactic.Common

/-! # The shortest prefix that is enough

Elements taken from the front of a list, added up until the total is enough. -/

namespace GiveMePi.Library

variable {α β : Type*} {enough : β → Bool} {add : β → α → β}

end GiveMePi.Library
