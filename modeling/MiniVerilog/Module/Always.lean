import MiniVerilog.Statement.Tree

/-! # Always blocks and their event controls -/

namespace MiniVerilog

/-- A change of the low bit of a signal. -/
inductive ClockEdge where
  | posedge | negedge
  deriving DecidableEq, Repr

/-- The edge a word of a sensitivity list stands for. -/
def ClockEdge.ofWord? (word : String) : Option ClockEdge :=
  if word = "posedge" then some posedge
  else if word = "negedge" then some negedge
  else none

/-- A signal that a block waits for, on any change or on one edge. -/
structure SensitivityItem where
  edge : Option ClockEdge
  signal : String
  deriving DecidableEq, Repr

/-- A body that runs when its event control fires. The sensitivity list holds the
words of the event control without separators. -/
structure AlwaysBlock where
  sensitivityList : List String
  body : List Nat
  line : Nat
  deriving DecidableEq, Repr

/-- Pairs the signals in a sensitivity list with the edges before them; of two
edges in a row the later one counts. -/
def SensitivityItem.ofWords (pending : Option ClockEdge) : List String → List SensitivityItem
  | [] => []
  | word :: words =>
    match ClockEdge.ofWord? word with
    | some edge => ofWords (some edge) words
    | none => ⟨pending, word⟩ :: ofWords none words

/-- The signals that a block waits for are words of its sensitivity list, and no word for an edge
is one of them. -/
theorem SensitivityItem.signal_mem_of_mem_ofWords {pending : Option ClockEdge}
    {words : List String} {item : SensitivityItem} (member : item ∈ ofWords pending words) :
    item.signal ∈ words ∧ ClockEdge.ofWord? item.signal = none := by
  fun_induction ofWords pending words with
  | case1 => cases member
  | case2 pending word words edge _ ih =>
    obtain ⟨listed, noEdge⟩ := ih member
    exact ⟨List.mem_cons_of_mem word listed, noEdge⟩
  | case3 pending word words noEdge ih =>
    rcases List.mem_cons.mp member with rfl | later
    · exact ⟨List.mem_cons_self, noEdge⟩
    · obtain ⟨listed, noEdge⟩ := ih later
      exact ⟨List.mem_cons_of_mem word listed, noEdge⟩

namespace AlwaysBlock

/-- The block waits for every signal. -/
def isImplicit (block : AlwaysBlock) : Bool :=
  block.sensitivityList.contains "*"

/-- What the block waits for. -/
def sensitivity (block : AlwaysBlock) : List SensitivityItem :=
  SensitivityItem.ofWords none block.sensitivityList

/-- The statements of the body, each on one line of source text. -/
def statementTexts (block : AlwaysBlock) (pool : Pool Statement) : List String :=
  StatementTree.texts (StatementTree.ofBody pool block.body)

end AlwaysBlock

end MiniVerilog
