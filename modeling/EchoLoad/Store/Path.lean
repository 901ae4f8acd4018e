/-!
Path texts. They are joined as they stand; only looking a path up takes it apart.
-/

namespace EchoLoad.Path

def isAbsolute (path : String) : Bool := path.toList.head? = some '/'

/-- `path` seen from `dir`. An absolute path stays as it is. -/
def join (dir path : String) : String :=
  if isAbsolute path || dir = "" then path
  else if dir.toList.getLast? = some '/' then dir ++ path
  else dir ++ "/" ++ path

def pieces : List Char → List (List Char)
  | [] => [[]]
  | c :: rest =>
    if c = '/' then [] :: pieces rest
    else
      match pieces rest with
      | [] => [[c]]
      | p :: ps => (c :: p) :: ps

/-- The steps of a path, without the empty ones. -/
def components (path : String) : List String :=
  ((pieces path.toList).filter (· ≠ [])).map String.ofList

/-- Steps without the dots at their end. A single dot at the start of a relative path stays. -/
def trimDots (absolute : Bool) (steps : List String) : List String :=
  if steps.getLast? = some "." ∧ (absolute ∨ 1 < steps.length) then
    trimDots absolute steps.dropLast
  else steps
termination_by steps.length
decreasing_by
  have : steps ≠ [] := by
    rintro rfl
    simp_all
  have := List.length_pos_iff.2 this
  simp only [List.length_dropLast]
  omega

/-- The steps to the directory that holds the last name of a path. Dots at the end are no names. -/
def parent (absolute : Bool) (steps : List String) : List String :=
  trimDots absolute (trimDots absolute steps).dropLast

theorem trimDots_length_le (absolute : Bool) (steps : List String) :
    (trimDots absolute steps).length ≤ steps.length := by
  fun_induction trimDots absolute steps with
  | case1 steps _ ih => simp only [List.length_dropLast] at ih; omega
  | case2 => exact Nat.le_refl _

theorem parent_length_lt (absolute : Bool) {steps : List String} (h : steps ≠ []) :
    (parent absolute steps).length < steps.length := by
  have h1 := trimDots_length_le absolute (trimDots absolute steps).dropLast
  have h2 := trimDots_length_le absolute steps
  have h3 := List.length_pos_iff.2 h
  rw [List.length_dropLast] at h1
  simp only [parent]
  omega

end EchoLoad.Path
