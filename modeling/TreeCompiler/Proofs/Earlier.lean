import Mathlib.Data.List.Infix

set_option autoImplicit false

namespace TreeCompiler

variable {α : Type}

def withEarlier (elements : List α) : List (List α × α) := elements.inits.zip elements

@[simp] theorem withEarlier_nil : withEarlier ([] : List α) = [] := rfl

@[simp] theorem withEarlier_cons (first : α) (rest : List α) :
    withEarlier (first :: rest) =
      ([], first) :: (withEarlier rest).map fun (earlier, element) => (first :: earlier, element) := by
  rw [withEarlier, List.inits_cons, List.zip_cons_cons, List.zip_map_left]
  rfl

theorem withEarlier_concat (elements : List α) (last : α) :
    withEarlier (elements ++ [last]) = withEarlier elements ++ [(elements, last)] := by
  induction elements with
  | nil => rfl
  | cons first rest ih => simp [ih]

def repeated (name : α → String) (known : List String) (elements : List α) : List α :=
  ((withEarlier elements).filter fun (earlier, element) =>
    name element ∈ known ++ earlier.map name).map Prod.snd

@[simp] theorem repeated_nil (name : α → String) (known : List String) :
    repeated name known [] = [] := rfl

theorem repeated_cons (name : α → String) (known : List String) (first : α) (rest : List α) :
    repeated name known (first :: rest) =
      (if name first ∈ known then [first] else []) ++
        repeated name (known ++ [name first]) rest := by
  by_cases old : name first ∈ known <;>
    simp [repeated, List.filter_map, Function.comp_def, old, -List.mem_map]

end TreeCompiler
