import Mathlib.Data.List.Basic

/-!
Lists compared class by class.  Where a view and a rest determine an entry, two lists with the
same views have the same entries exactly when the rests agree in every class of one view.
-/

namespace Fibres

variable {Entry View Rest : Type}

end Fibres
