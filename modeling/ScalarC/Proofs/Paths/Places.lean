import ScalarC.Proofs.Paths.Source
import ScalarC.Proofs.Run.Source

/-!
# Places of events

Lowering passes through the text of a function once, in order, and a local has its slot from
its first declaration in the text on. A path may leave out the part with the declaration, an arm
of a branch or the body of a loop. So the events of a path are given here together with the
declarations that stand before them in the text, where control can get. Apart from that, the
paths are the same.

## Main definitions

* `SourceFunction.placedPaths`: the control paths of a function, with the place of each event.
* `Paths.map`: the paths with the images of their events.
-/

namespace ScalarC

namespace Paths

variable {α β : Type}

/-- The paths with the images of their events. -/
def map (X : Paths α) (f : α → β) : Paths β :=
  fun path flow => ∃ events, X events flow ∧ events.map f = path

variable (f : α → β)

theorem map_steps (events : List α) : (steps events).map f = steps (events.map f) := by
  funext path flow
  apply propext
  constructor
  · rintro ⟨_, ⟨rfl, rfl⟩, rfl⟩
    exact ⟨rfl, rfl⟩
  · rintro ⟨rfl, rfl⟩
    exact ⟨events, ⟨rfl, rfl⟩, rfl⟩

theorem map_stop : (stop : Paths α).map f = stop := by
  funext path flow
  apply propext
  constructor
  · rintro ⟨_, ⟨rfl, rfl⟩, rfl⟩
    exact ⟨rfl, rfl⟩
  · rintro ⟨rfl, rfl⟩
    exact ⟨[], ⟨rfl, rfl⟩, rfl⟩

theorem map_seq (X Y : Paths α) : (seq X Y).map f = seq (X.map f) (Y.map f) := by
  funext path flow
  apply propext
  constructor
  · rintro ⟨_, ⟨hX, rfl⟩ | ⟨first, rest, rfl, hX, hY⟩, rfl⟩
    · exact .inl ⟨⟨_, hX, rfl⟩, rfl⟩
    · exact .inr ⟨_, _, List.map_append, ⟨first, hX, rfl⟩, rest, hY, rfl⟩
  · rintro (⟨⟨first, hX, rfl⟩, rfl⟩ | ⟨_, _, rfl, ⟨first, hX, rfl⟩, rest, hY, rfl⟩)
    · exact ⟨first, .inl ⟨hX, rfl⟩, rfl⟩
    · exact ⟨first ++ rest, seq_of_continues hX hY, List.map_append⟩

theorem map_either (X Y : Paths α) : (either X Y).map f = either (X.map f) (Y.map f) := by
  funext path flow
  apply propext
  constructor
  · rintro ⟨events, hX | hY, rfl⟩
    · exact .inl ⟨events, hX, rfl⟩
    · exact .inr ⟨events, hY, rfl⟩
  · rintro (⟨events, hX, rfl⟩ | ⟨events, hY, rfl⟩)
    · exact ⟨events, .inl hX, rfl⟩
    · exact ⟨events, .inr hY, rfl⟩

theorem map_loop (X Y : Paths α) : (Loop X Y).map f = Loop (X.map f) (Y.map f) := by
  funext path flow
  apply propext
  constructor
  · rintro ⟨events, hloop, rfl⟩
    induction hloop with
    | leave test => exact .leave ⟨_, test, rfl⟩
    | stopTest test => exact .stopTest ⟨_, test, rfl⟩
    | stopBody test pass =>
      rw [List.map_append]
      exact .stopBody ⟨_, test, rfl⟩ ⟨_, pass, rfl⟩
    | again test pass tail ih =>
      rw [List.map_append, List.map_append]
      exact .again ⟨_, test, rfl⟩ ⟨_, pass, rfl⟩ ih
  · intro hloop
    induction hloop with
    | leave test =>
      obtain ⟨events, htest, rfl⟩ := test
      exact ⟨events, .leave htest, rfl⟩
    | stopTest test =>
      obtain ⟨events, htest, rfl⟩ := test
      exact ⟨events, .stopTest htest, rfl⟩
    | stopBody test pass =>
      obtain ⟨first, htest, rfl⟩ := test
      obtain ⟨inner, hpass, rfl⟩ := pass
      exact ⟨first ++ inner, .stopBody htest hpass, List.map_append⟩
    | again test pass tail ih =>
      obtain ⟨first, htest, rfl⟩ := test
      obtain ⟨inner, hpass, rfl⟩ := pass
      obtain ⟨rest, hrest, rfl⟩ := ih
      exact ⟨first ++ inner ++ rest, .again htest hpass hrest, by simp⟩

end Paths

/-- An event on a path, with the names whose declarations stand before it in the text, where
control can get. -/
structure PlacedEvent where
  event : LocalEvent
  lets : List String

/-- Reads at one place. -/
def PlacedEvent.reads (lets names : List String) : List PlacedEvent :=
  names.map fun name => ⟨.read name, lets⟩

@[simp] theorem PlacedEvent.map_event_reads (lets names : List String) :
    (reads lets names).map (·.event) = names.map .read := by
  simp [reads]

/-- The names that a block declares where control can get. -/
def blockLets (block : List Statement) : List String := (blockDeclarations block).map (·.name)

namespace Statement

/-- The names that a statement declares where control can get. -/
def lets (statement : Statement) : List String := statement.declarations.map (·.name)

open PlacedEvent

mutual

/-- The paths through a statement behind which `lets` are declared in the text. -/
def placedPaths (lets : List String) : Statement → Paths PlacedEvent
  | .declare name _ none => .steps [⟨.declare name, lets⟩]
  | .declare name _ (some e) =>
    .steps (⟨.declare name, lets⟩ :: reads (lets ++ [name]) e.reads
      ++ [⟨.assign name, lets ++ [name]⟩])
  | .assign name e => .steps (reads lets e.reads ++ [⟨.assign name, lets⟩])
  | .eval e => .steps (reads lets e.reads)
  | .print what => .steps (reads lets what.reads)
  | .ret none => .stop
  | .ret (some e) => .seq (.steps (reads lets e.reads)) .stop
  | .branch condition thenBlock elseBlock =>
    .seq (.steps (reads lets condition.reads))
      (.either (blockPlacedPaths lets thenBlock)
        (blockPlacedPaths (lets ++ blockLets thenBlock) elseBlock))
  | .loop condition body =>
    .Loop (.steps (reads lets condition.reads))
      (.seq (blockPlacedPaths lets body) (.steps [⟨.back, lets⟩]))

/-- The paths through a block behind which `lets` are declared in the text. -/
def blockPlacedPaths (lets : List String) : List Statement → Paths PlacedEvent
  | [] => .steps []
  | statement :: rest =>
    .seq (statement.placedPaths lets) (blockPlacedPaths (lets ++ statement.lets) rest)

end

mutual

theorem map_placedPaths (lets : List String) (statement : Statement) :
    (statement.placedPaths lets).map (·.event) = statement.paths := by
  cases statement with
  | declare name ty init =>
    cases init <;> simp [placedPaths, paths, Paths.map_steps]
  | assign name e => simp [placedPaths, paths, Paths.map_steps]
  | eval e => simp [placedPaths, paths, Paths.map_steps]
  | print what => simp [placedPaths, paths, Paths.map_steps]
  | ret value =>
    cases value with
    | none => exact Paths.map_stop _
    | some e => simp [placedPaths, paths, Paths.map_seq, Paths.map_steps, Paths.map_stop]
  | branch c thenBlock elseBlock =>
    simp [placedPaths, paths, Paths.map_seq, Paths.map_either, Paths.map_steps,
      map_blockPlacedPaths _ thenBlock, map_blockPlacedPaths _ elseBlock]
  | loop c body =>
    simp [placedPaths, paths, Paths.map_loop, Paths.map_seq, Paths.map_steps,
      map_blockPlacedPaths _ body]

theorem map_blockPlacedPaths (lets : List String) (block : List Statement) :
    (blockPlacedPaths lets block).map (·.event) = blockPaths block := by
  cases block with
  | nil => exact Paths.map_steps _ _
  | cons statement rest =>
    simp [blockPlacedPaths, blockPaths, Paths.map_seq, map_placedPaths _ statement,
      map_blockPlacedPaths _ rest]

end

mutual

/-- Every statement has a path. -/
theorem exists_path (statement : Statement) : ∃ path flow, statement.paths path flow := by
  cases statement with
  | declare name ty init => cases init <;> exact ⟨_, _, rfl, rfl⟩
  | assign name value => exact ⟨_, _, rfl, rfl⟩
  | eval e => exact ⟨_, _, rfl, rfl⟩
  | print what => exact ⟨_, _, rfl, rfl⟩
  | ret value =>
    cases value with
    | none => exact ⟨_, _, rfl, rfl⟩
    | some e => exact ⟨_, _, Paths.seq_of_continues ⟨rfl, rfl⟩ ⟨rfl, rfl⟩⟩
  | branch c thenBlock elseBlock =>
    obtain ⟨path, flow, hpath⟩ := exists_blockPath thenBlock
    exact ⟨_, flow, Paths.seq_of_continues ⟨rfl, rfl⟩ (.inl hpath)⟩
  | loop c body => exact ⟨_, _, .leave ⟨rfl, rfl⟩⟩

theorem exists_blockPath (block : List Statement) : ∃ path flow, blockPaths block path flow := by
  cases block with
  | nil => exact ⟨_, _, rfl, rfl⟩
  | cons statement rest =>
    obtain ⟨first, flow, hfirst⟩ := exists_path statement
    cases flow with
    | returns => exact ⟨first, .returns, .inl ⟨hfirst, rfl⟩⟩
    | continues =>
      obtain ⟨last, flow, hlast⟩ := exists_blockPath rest
      exact ⟨_, flow, Paths.seq_of_continues hfirst hlast⟩

end

theorem exists_blockPlacedPath (lets : List String) (block : List Statement) :
    ∃ path flow, blockPlacedPaths lets block path flow := by
  obtain ⟨path, flow, hpath⟩ := exists_blockPath block
  rw [← map_blockPlacedPaths lets] at hpath
  obtain ⟨placed, hplaced, _⟩ := hpath
  exact ⟨placed, flow, hplaced⟩

end Statement

/-- The paths of a function, with the place of each event. -/
def SourceFunction.placedPaths (function : SourceFunction) : Paths PlacedEvent :=
  .seq (.steps (function.params.map fun param => ⟨.assign param.name, []⟩))
    (Statement.blockPlacedPaths [] function.body)

/-- Without the places, the paths are those of the function. -/
theorem SourceFunction.map_placedPaths (function : SourceFunction) :
    function.placedPaths.map (·.event) = function.paths := by
  simp [placedPaths, paths, Paths.map_seq, Paths.map_steps, Statement.map_blockPlacedPaths,
    Function.comp_def]

theorem SourceFunction.paths_of_placed {function : SourceFunction} {path : List PlacedEvent}
    {flow : Flow} (h : function.placedPaths path flow) :
    function.paths (path.map (·.event)) flow := by
  rw [← function.map_placedPaths]
  exact ⟨path, h, rfl⟩

end ScalarC
