/-! # Lines without comments and string contents

The linter looks at each line after its comments and the contents of its strings
have been removed. An open block comment goes on with the next line.
-/

namespace MiniVerilog.Lint

/-- The text after a string, given the text after its opening quote. A backslash
takes the next character with it. -/
def skipString : List Char → List Char
  | [] => []
  | '"' :: rest => rest
  | '\\' :: _ :: rest => skipString rest
  | _ :: rest => skipString rest

/-- A string leaves no more characters than there were. -/
theorem length_skipString_le (cs : List Char) : (skipString cs).length ≤ cs.length := by
  fun_induction skipString cs with
  | case1 => simp
  | case2 => simp
  | case3 first rest shorter => simp only [List.length_cons]; omega
  | case4 first rest _ _ shorter => simp only [List.length_cons]; omega

/-- A line without its comments, and whether a block comment is open at its end.
The end of a block comment leaves a space, and a string leaves its quotes. -/
def clean (inComment : Bool) (cs : List Char) : List Char × Bool :=
  match inComment, cs with
  | inComment, [] => ([], inComment)
  | true, '*' :: '/' :: rest => ((' ' :: (clean false rest).1), (clean false rest).2)
  | true, _ :: rest => clean true rest
  | false, '/' :: '/' :: _ => ([], false)
  | false, '/' :: '*' :: rest => clean true rest
  | false, '"' :: rest =>
    ('"' :: '"' :: (clean false (skipString rest)).1, (clean false (skipString rest)).2)
  | false, c :: rest => (c :: (clean false rest).1, (clean false rest).2)
termination_by cs.length
decreasing_by
  all_goals simp only [List.length_cons]
  all_goals try have := length_skipString_le rest
  all_goals omega

/-- The clean texts of consecutive lines. -/
def cleanLines (inComment : Bool) : List (List Char) → List (List Char)
  | [] => []
  | line :: lines => (clean inComment line).1 :: cleanLines (clean inComment line).2 lines

end MiniVerilog.Lint
