import MiniVerilog.Lint.CleanText
import MiniVerilog.Proofs.Token.Plain

/-! # Clean lines piece by piece

The linter copies a line character by character. It takes a line as the scanner does, piece by
piece: it copies the piece of code at the front, leaves the quotes of a string and a space of a
block comment, and stops at a line comment (`MiniVerilog.Lint.cleanFrom_cons`).
-/

namespace MiniVerilog.Lint

open Token (Start commentLength? pieceAt stringLength)

/-- A clean line, whether a block comment is open at its end, and the column at which a line
comment starts. -/
structure Cleaned where
  text : List Char
  inComment : Bool
  lineComment? : Option Nat

/-- A clean line after some text. -/
def Cleaned.after (cleaned : Cleaned) (before : List Char) : Cleaned :=
  { cleaned with text := before ++ cleaned.text }

/-- Cleans the rest of a line that starts at the given column. -/
def cleanFrom (column : Nat) (inComment : Bool) (cs : List Char) : Cleaned :=
  match inComment, cs with
  | inComment, [] => ⟨[], inComment, none⟩
  | true, '*' :: '/' :: rest => (cleanFrom (column + 2) false rest).after [' ']
  | true, _ :: rest => cleanFrom (column + 1) true rest
  | false, '/' :: '/' :: _ => ⟨[], false, some column⟩
  | false, '/' :: '*' :: rest => cleanFrom (column + 2) true rest
  | false, '"' :: rest =>
    (cleanFrom (column + 1 + (rest.length - (skipString rest).length)) false
      (skipString rest)).after ['"', '"']
  | false, c :: rest => (cleanFrom (column + 1) false rest).after [c]
termination_by cs.length
decreasing_by
  all_goals simp only [List.length_cons]
  all_goals try have := length_skipString_le rest
  all_goals omega

/-- The columns are all that is added. -/
theorem clean_eq_cleanFrom (column : Nat) (inComment : Bool) (cs : List Char) :
    clean inComment cs =
      ((cleanFrom column inComment cs).text, (cleanFrom column inComment cs).inComment) := by
  fun_induction cleanFrom column inComment cs with
  | case1 => rw [clean]
  | case2 column rest ih => rw [clean, ih]; rfl
  | case3 column c rest goesOn ih => rw [clean.eq_3 c rest goesOn, ih]
  | case4 => rw [clean]
  | case5 column rest ih => rw [clean, ih]
  | case6 column rest ih => rw [clean, ih]; rfl
  | case7 column c rest noLine noBlock noQuote ih =>
      rw [clean.eq_7 c rest noLine noBlock noQuote, ih]; rfl

/-- Plain characters are left as they are. -/
theorem cleanFrom_plain_append {piece : List Char} (plain : ∀ c ∈ piece, Token.isPlain c = true)
    (column : Nat) (after : List Char) : cleanFrom column false (piece ++ after) =
      (cleanFrom (column + piece.length) false after).after piece := by
  induction piece generalizing column with
  | nil => rfl
  | cons c piece ih =>
      obtain ⟨first, others⟩ := List.forall_mem_cons.mp plain
      obtain ⟨noSlash, noQuote⟩ := Token.isPlain_eq_true.mp first
      rw [List.cons_append, cleanFrom.eq_7 column c _ (fun _ slash => (noSlash slash).elim)
        (fun _ slash => (noSlash slash).elim) noQuote, ih others, List.length_cons,
        Nat.add_right_comm, ← Nat.add_assoc]
      rfl

/-- A comment that ends leaves a space. -/
theorem cleanFrom_of_closed {cs : List Char} {length : Nat}
    (closed : commentLength? cs = some length) (column : Nat) : cleanFrom column true cs =
      (cleanFrom (column + length) false (cs.drop length)).after [' '] := by
  induction cs generalizing length column with
  | nil => cases closed
  | cons c cs ih =>
      by_cases ends : c = '*' ∧ cs.head? = some '/'
      · obtain ⟨rfl, slash⟩ := ends
        obtain ⟨rest, rfl⟩ := List.head?_eq_some_iff.mp slash
        cases closed
        rw [cleanFrom]
        rfl
      · rw [Token.commentLength?_cons ends, Option.map_eq_some_iff] at closed
        obtain ⟨shorter, rest, rfl⟩ := closed
        rw [cleanFrom.eq_3 column c cs fun _ star slash => ends ⟨star, slash ▸ rfl⟩,
          ih rest, List.drop_succ_cons, Nat.add_right_comm, ← Nat.add_assoc]

/-- A comment without an end leaves nothing of the line. -/
theorem cleanFrom_of_open {cs : List Char} (unclosed : commentLength? cs = none) (column : Nat) :
    cleanFrom column true cs = ⟨[], true, none⟩ := by
  induction cs generalizing column with
  | nil => rw [cleanFrom]
  | cons c cs ih =>
      by_cases ends : c = '*' ∧ cs.head? = some '/'
      · obtain ⟨rfl, slash⟩ := ends
        obtain ⟨rest, rfl⟩ := List.head?_eq_some_iff.mp slash
        cases unclosed
      · rw [Token.commentLength?_cons ends, Option.map_eq_none_iff] at unclosed
        rw [cleanFrom.eq_3 column c cs fun _ star slash => ends ⟨star, slash ▸ rfl⟩,
          ih unclosed]

/-- A string ends for the linter where it ends for the scanner. -/
theorem skipString_eq_drop (cs : List Char) : skipString cs = cs.drop (stringLength cs) := by
  fun_induction stringLength cs with
  | case1 => rfl
  | case2 => rfl
  | case3 escaped rest ih => rw [skipString, ih]; rfl
  | case4 c rest noQuote noEscape ih => rw [skipString.eq_4 c rest noQuote noEscape, ih]; rfl

/-- What the linter leaves of the piece at the front of a line. -/
def leftOf (first : Char) (rest : List Char) : Start → List Char
  | .lineComment => []
  | .blockComment => if (commentLength? (rest.drop 1)).isSome then [' '] else []
  | .string => ['"', '"']
  | start => first :: rest.take (start.piece first rest).following

/-- The linter copies code. -/
theorem cleanFrom_code {first : Char} {rest : List Char} {start : Start}
    (starts : Start.of first rest.head? = start) (code : start.isCode = true) (column : Nat) :
    cleanFrom column false (first :: rest) =
      (cleanFrom (column + 1 + (start.piece first rest).following)
        (start.piece first rest).opensComment (rest.drop (start.piece first rest).following)).after
          (first :: rest.take (start.piece first rest).following) := by
  rw [Start.opensComment_of_isCode code]
  by_cases slash : first = '/'
  · subst slash
    rw [Start.of_slash] at starts
    split_ifs at starts with isLine isBlock
    · rw [← starts] at code
      cases code
    · rw [← starts] at code
      cases code
    · rw [cleanFrom.eq_7 column '/' rest (fun _ _ next => isLine (next ▸ rfl))
        (fun _ _ next => isBlock (next ▸ rfl)) (by decide), ← starts]
      rfl
  · have inside := Token.following_pieceAt_le first rest
    rw [Token.pieceAt_eq, starts] at inside
    have split : first :: rest = (first :: rest.take (start.piece first rest).following) ++
        rest.drop (start.piece first rest).following := by
      rw [List.cons_append, List.take_append_drop]
    have length : column + (first :: rest.take (start.piece first rest).following).length =
        column + 1 + (start.piece first rest).following := by
      rw [List.length_cons, List.length_take_of_le inside]
      omega
    have copied := cleanFrom_plain_append (Start.isPlain_piece starts slash code) column
      (rest.drop (start.piece first rest).following)
    rwa [← split, length] at copied

/-- **The linter copies a piece or leaves it out**, unless that is a line comment. -/
theorem cleanFrom_cons {first : Char} {rest : List Char}
    (noLine : Start.of first rest.head? ≠ .lineComment) (column : Nat) :
    cleanFrom column false (first :: rest) =
      (cleanFrom (column + 1 + (pieceAt first rest).following) (pieceAt first rest).opensComment
        (rest.drop (pieceAt first rest).following)).after
          (leftOf first rest (Start.of first rest.head?)) := by
  rw [Token.pieceAt_eq]
  cases starts : Start.of first rest.head? with
  | lineComment => exact (noLine starts).elim
  | blockComment =>
      obtain ⟨rfl, text, rfl⟩ := Start.eq_of_blockComment starts
      rw [cleanFrom]
      simp only [Start.piece, leftOf, List.drop_succ_cons, List.drop_zero]
      cases closed : commentLength? text with
      | some length =>
          have columns : column + 2 + length = column + 1 + (length + 1) := by omega
          rw [cleanFrom_of_closed closed, columns]
          rfl
      | none =>
          rw [cleanFrom_of_open closed]
          simp only [List.drop_length]
          rw [cleanFrom]
          rfl
  | string =>
      obtain rfl := Start.eq_quote starts
      have length : rest.length - (rest.drop (stringLength rest)).length = stringLength rest := by
        have inside := Token.stringLength_le rest
        rw [List.length_drop]
        omega
      rw [cleanFrom, skipString_eq_drop, length]
      rfl
  | separator => exact cleanFrom_code starts rfl column
  | name => exact cleanFrom_code starts rfl column
  | number => exact cleanFrom_code starts rfl column
  | based => exact cleanFrom_code starts rfl column
  | operator => exact cleanFrom_code starts rfl column

end MiniVerilog.Lint
