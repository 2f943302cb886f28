import ScalarC.Proofs.CText.Emission
import ScalarC.Proofs.Run.Fuel
import ScalarC.Proofs.Sample.Lowering

/-!
# The sums that the sample prints

Where bytes are added modulo 256, the adder of the sample hands back the sum of its arguments,
and `main` prints one sum after the other. This is shown of the source, by induction on the
list of pairs, and carried over to the code, which runs alike.
-/

namespace ScalarC

/-- Bytes are added modulo 256, and are handed on as they are. -/
structure Meaning.WrapsBytes (m : Meaning) : Prop where
  add : ∀ a b, Scalar.u8.fits a → Scalar.u8.fits b →
    m.binary .add ⟨.u8, a⟩ ⟨.u8, b⟩ = some ((a + b) % 256)
  convert : ∀ a, Scalar.u8.fits a → m.convert ⟨.u8, a⟩ .u8 = some a
  returned : ∀ a, Scalar.u8.fits a → m.returned ⟨.u8, a⟩ .u8 = some a

namespace Sample

variable {path : String} {m : Meaning} {unit : SourceUnit} {settings : Settings} {symbol : Symbol}

theorem run_addNumbers {act : Activation} (hm : act.meaning.WrapsBytes)
    (hfunction : act.function = addNumbers path) {a b : Int} (ha : Scalar.u8.fits a)
    (hb : Scalar.u8.fits b) (fuel : Nat) :
    act.run fuel [a, b] = pure (some ((a + b) % 256)) := by
  have hsum : Scalar.u8.fits ((a + b) % 256) := Scalar.fits_wrap .u8 (a + b)
  have hparams : bindParams (addNumbers path).params [a, b] = some [("a", a), ("b", b)] := rfl
  have hty : (addNumbers path).localType? "a" = some .u8 := rfl
  have hty' : (addNumbers path).localType? "b" = some .u8 := rfl
  have hraw : Store.ofBindings [("a", a), ("b", b)] "a" = some a := rfl
  have hraw' : Store.ofBindings [("a", a), ("b", b)] "b" = some b := rfl
  have hreturns : (addNumbers path).returnType = some .u8 := rfl
  have hreturn : act.execReturn (Store.ofBindings [("a", a), ("b", b)])
      (some (.binary .add (.var "a") (.var "b"))) = pure (some ((a + b) % 256)) := by
    simp only [Activation.execReturn, Activation.evalExpr, hfunction, hty, hty', hraw, hraw',
      hreturns, Run.ofOption_some, pure_bind, hm.add a b ha hb, Operator.isComparison,
      Bool.false_eq_true, if_false, hm.returned _ hsum]
  rw [Activation.run, hfunction, hparams]
  simp only [addNumbers, Run.ofOption_some, pure_bind, Activation.execBlock,
    Activation.execStatement, hreturn, Run.andThen]

/-- The adder is called, and hands back the sum. -/
theorem invoke_addNumbers (hm : m.WrapsBytes)
    (hsymbol : (addNumbers path).symbol? settings = some symbol) {a b : Int}
    (ha : Scalar.u8.fits a) (hb : Scalar.u8.fits b) (fuel : Nat) :
    unit.invoke settings m (fuel + 1) (addNumbers path) [a, b]
      = Run.emit (.call symbol [a, b]) >>= fun _ => pure (some ((a + b) % 256)) := by
  have hinternal : (addNumbers path).isExternal = false := rfl
  simp only [SourceUnit.invoke, hsymbol, hinternal, Run.ofOption_some, pure_bind,
    Bool.false_eq_true, if_false]
  rw [run_addNumbers hm rfl ha hb]

/-- What can be observed of one pair: the call, the sum, and the end of its line. -/
def sumEvents (symbol : Symbol) (pair : Int64 × Int64) : List Event :=
  [.call symbol [pair.1.toInt % 256, pair.2.toInt % 256],
    .print .u8 (.value ⟨.u8, (pair.1.toInt + pair.2.toInt) % 256⟩),
    .print .newline .nothing]

/-- An activation whose calls of the adder hand back sums. -/
structure Adds (act : Activation) (path : String) (symbol : Symbol) : Prop where
  meaning : act.meaning.WrapsBytes
  callee : act.unit.function? (addNumbers path).id = some (addNumbers path)
  invoke : ∀ a b, Scalar.u8.fits a → Scalar.u8.fits b → act.invoke (addNumbers path) [a, b]
    = Run.emit (.call symbol [a, b]) >>= fun _ => pure (some ((a + b) % 256))

variable {act : Activation}

theorem Adds.evalExpr (h : Adds act path symbol) (pair : Int64 × Int64) (store : Store) :
    act.evalExpr store (.call (.function (addNumbers path).id)
        [.literal ⟨pair.1, .u8⟩, .literal ⟨pair.2, .u8⟩])
      = Run.emit (.call symbol [pair.1.toInt % 256, pair.2.toInt % 256])
        >>= fun _ => pure ⟨.u8, (pair.1.toInt + pair.2.toInt) % 256⟩ := by
  have ha : Scalar.u8.fits (pair.1.toInt % 256) := Scalar.fits_wrap .u8 pair.1.toInt
  have hb : Scalar.u8.fits (pair.2.toInt % 256) := Scalar.fits_wrap .u8 pair.2.toInt
  have htypes : (addNumbers path).paramTypes = [.u8, .u8] := rfl
  have hreturns : (addNumbers path).returnType = some .u8 := rfl
  have hargs : act.meaning.convertAll [⟨.u8, pair.1.toInt % 256⟩, ⟨.u8, pair.2.toInt % 256⟩]
      [.u8, .u8] = some [pair.1.toInt % 256, pair.2.toInt % 256] := by
    simp [Meaning.convertAll, h.meaning.convert _ ha, h.meaning.convert _ hb]
  simp only [Activation.evalExpr, Activation.evalArgs, SourceUnit.callee?, h.callee, wrap_byte,
    Run.ofOption_some, pure_bind, Activation.call, htypes, hargs, h.invoke _ _ ha hb, bind_assoc,
    hreturns, ← Int.add_emod]

/-- A pair is printed on a line of its own. -/
theorem Adds.execBlock_printSum (h : Adds act path symbol) (pair : Int64 × Int64)
    (rest : List Statement) (fuel : Nat) (store : Store) (history : History) :
    act.execBlock fuel (printSum path pair ++ rest) store history
      = act.execBlock fuel rest store (history ++ sumEvents symbol pair) := by
  have hprinter : Routine.printer? .u8 = some .u8 := rfl
  simp only [printSum, List.cons_append, List.nil_append, Activation.execBlock,
    Activation.execStatement, Activation.execSimple, Activation.print, h.evalExpr, bind_assoc,
    pure_bind, hprinter, Run.ofOption_some, Run.andThen]
  simp [Run.emit, bind, StateT.bind, sumEvents]

/-- The pairs are printed in order, and zero is handed back. -/
theorem Adds.execBlock (h : Adds act path symbol) (hreturns : act.function.returnType = some .u8)
    (pairs : List (Int64 × Int64)) (fuel : Nat) (store : Store) (history : History) :
    act.execBlock fuel (pairs.flatMap (printSum path) ++ [.ret (some (.literal ⟨0, .u8⟩))])
        store history
      = some ((.returned (some 0), store), history ++ pairs.flatMap (sumEvents symbol)) := by
  induction pairs generalizing history with
  | nil =>
    have hwrap : (0 : Int64).toInt % 256 = 0 := rfl
    have hzero := h.meaning.returned 0 (by decide)
    simp only [List.flatMap_nil, List.nil_append, List.append_nil, Activation.execBlock,
      Activation.execStatement, Activation.execReturn, Activation.evalExpr, hreturns,
      Run.ofOption_some, pure_bind, wrap_byte, hwrap, hzero, Run.andThen]
    rfl
  | cons pair pairs ih =>
    rw [List.flatMap_cons, List.append_assoc, h.execBlock_printSum, ih, List.flatMap_cons,
      List.append_assoc]

theorem terminates_addPairs (hm : m.WrapsBytes)
    (hsymbol : (addNumbers path).symbol? settings = some symbol)
    (pairs : List (Int64 × Int64)) :
    (addPairs path pairs).Terminates settings m (pairsMain path pairs) [] (some 0)
      (pairs.flatMap (sumEvents symbol)) := by
  have hadds : Adds
      { meaning := m
        unit := addPairs path pairs
        settings
        function := pairsMain path pairs
        invoke := (addPairs path pairs).invoke settings m 1 } path symbol :=
    { meaning := hm
      callee := by simp [SourceUnit.function?, functions_addPairs]
      invoke := fun a b ha hb => invoke_addNumbers hm hsymbol ha hb 0 }
  have hrun := hadds.execBlock rfl pairs 1 (Store.ofBindings []) []
  have hparams : (pairsMain path pairs).params = [] := rfl
  have hbody : (pairsMain path pairs).body = pairs.flatMap (printSum path)
    ++ [.ret (some (.literal ⟨0, .u8⟩))] := rfl
  refine ⟨1, ?_⟩
  simp only [SourceUnit.run, Activation.run, hparams, bindParams, Run.ofOption_some, pure_bind,
    hbody]
  simp only [bind, StateT.bind, hrun]
  rfl

end Sample

/-- The code that is found under the symbol of a function runs like the function. -/
theorem SourceUnit.run_lowered {unit : SourceUnit} {settings : Settings} {lowered : LoweredUnit}
    (h : unit.lower settings = .ok lowered) (hcanonical : settings.spelling = .canonical)
    {function : SourceFunction} (hmem : function ∈ unit.functions)
    (hinternal : function.isExternal = false) {code : LoweredFunction}
    (hsymbol : function.symbol? settings = some code.symbol)
    (hfind : lowered.functions.find? (·.symbol == code.symbol) = some code)
    (m : Meaning) (fuel : Nat) (args : List Int) :
    lowered.run m fuel code args = unit.run settings m fuel function args := by
  obtain ⟨shared, lowerings, hshared, hlower, hfunctions⟩ := lower_ok h
  obtain ⟨lowering, hlowers, hfound⟩ :=
    hshared.find?_lowered hlower hshared.distinct_symbols hmem
  have hsame : code.symbol = lowering.function.symbol := by
    rw [hshared.symbol_of_lowers hlowers, Option.some.injEq] at hsymbol
    exact hsymbol.symm
  have hcode : code = lowering.function := by
    rw [hfunctions, hsame, hfound, Option.some.injEq] at hfind
    exact hfind.symm
  rw [hcode]
  exact hshared.run_eq hcanonical
    (hshared.invoke_eq hcanonical hlower hfunctions m fuel) hlowers hinternal args

namespace Sample

/-- The code of `main` ends in one way. -/
theorem terminates_main_iff {lowered : LoweredUnit} {main : LoweredFunction} {path : String}
    {pairs : List (Int64 × Int64)} (hlower : (addPairs path pairs).lower {} = .ok lowered)
    (hfind : lowered.functions.find? (·.symbol == main.symbol) = some main)
    (hsymbol : main.symbol = mainSymbol path) {m : Meaning} (hm : m.WrapsBytes)
    {result : Option Int} {events : History} :
    lowered.Terminates m main [] result events ↔
      result = some 0 ∧ events = pairs.flatMap (sumEvents (addSymbol path)) := by
  have hmain : (pairsMain path pairs).symbol? {} = some main.symbol := by
    rw [SourceFunction.symbol?, symbolOf_pairsMain rfl rfl, hsymbol]
    rfl
  have hadd : (addNumbers path).symbol? {} = some (addSymbol path) := by
    rw [SourceFunction.symbol?, symbolOf_addNumbers rfl rfl]
    rfl
  have hrun : ∀ fuel, lowered.run m fuel main []
      = (addPairs path pairs).run {} m fuel (pairsMain path pairs) [] :=
    fun fuel => SourceUnit.run_lowered hlower rfl
      (List.mem_cons_of_mem _ List.mem_cons_self) rfl hmain hfind m fuel []
  have hsame : lowered.Terminates m main [] result events ↔
      (addPairs path pairs).Terminates {} m (pairsMain path pairs) [] result events := by
    simp only [LoweredUnit.Terminates, SourceUnit.Terminates, hrun]
  have hends := terminates_addPairs hm hadd pairs
  rw [hsame]
  constructor
  · intro h
    exact h.unique hends
  · rintro ⟨rfl, rfl⟩
    exact hends

/-- The sample prints the sums of bytes, whatever the path and the pairs. It is compiled, and
reports exactly the literals out of range, in order. Its entry point is `main`; where bytes are
added modulo 256, `main` ends in one way: with zero, behind a call of the adder, the sum modulo
256 in the byte format and the end of a line for each pair in turn. -/
theorem addPairs_prints_sums (path : String) (pairs : List (Int64 × Int64)) :
    ∃ code lowered main,
      (addPairs path pairs).generate {} = .ok ⟨code, reports pairs⟩
      ∧ (addPairs path pairs).lower {} = .ok lowered
      ∧ lowered.entry = some ⟨main.symbol, some .u8⟩
      ∧ lowered.functions.find? (·.symbol == main.symbol) = some main ∧ main.name = "main"
      ∧ ∀ m : Meaning, m.WrapsBytes → ∀ result events,
        lowered.Terminates m main [] result events ↔
          result = some 0 ∧ events = pairs.flatMap (sumEvents (addSymbol path)) := by
  obtain ⟨lowered, main, hlower, hdiagnostics, hentry, hfind, hsymbol, hname⟩ :=
    exists_lower path pairs
  obtain ⟨code, hcode⟩ := SourceUnit.exists_emit_of_lower hlower {}
  refine ⟨code, lowered, main, ?_, hlower, hentry, hfind, hname, ?_⟩
  · rw [SourceUnit.generate, hlower]
    simp only [bind, Except.bind, hcode, hdiagnostics]
    rfl
  · intro m hm result events
    exact terminates_main_iff hlower hfind hsymbol hm

/-- A meaning in which every operator adds bytes. -/
def byteSums : Meaning where
  binary _ a b := some ((a.raw + b.raw) % 256)
  convert v _ := some v.raw
  returned v _ := some v.raw
  external _ _ _ := none

/-- A sum that does not fit in a byte, and two literals that do not; the path starts with a
digit and has a blank. -/
theorem addPairs_prints_sums_wraps :
    ∃ code lowered main,
      (addPairs "9 lives" [(200, 100), (-1, 300)]).generate {}
        = .ok ⟨code,
            [{ severity := .warning
               message := "in simple_add::main: literal -1 does not fit in u8"
               position := none
               notes := ["the value wraps to 255"] },
              { severity := .warning
                message := "in simple_add::main: literal 300 does not fit in u8"
                position := none
                notes := ["the value wraps to 44"] }]⟩
      ∧ (addPairs "9 lives" [(200, 100), (-1, 300)]).lower {} = .ok lowered
      ∧ byteSums.WrapsBytes
      ∧ lowered.Terminates byteSums main [] (some 0)
        [.call "_9_lives_simple_add_add_numbers$u8$u8" [200, 100],
          .print .u8 (.value ⟨.u8, 44⟩), .print .newline .nothing,
          .call "_9_lives_simple_add_add_numbers$u8$u8" [255, 44],
          .print .u8 (.value ⟨.u8, 43⟩), .print .newline .nothing] := by
  have hm : byteSums.WrapsBytes := ⟨fun _ _ _ _ => rfl, fun _ _ => rfl, fun _ _ => rfl⟩
  have hreports : reports [(200, 100), (-1, 300)]
      = [⟨.warning, "in simple_add::main: literal -1 does not fit in u8", none,
            ["the value wraps to 255"]⟩,
          ⟨.warning, "in simple_add::main: literal 300 does not fit in u8", none,
            ["the value wraps to 44"]⟩] := by
    decide +kernel
  obtain ⟨code, lowered, main, hgenerate, hlower, _, _, _, hends⟩ :=
    addPairs_prints_sums "9 lives" [(200, 100), (-1, 300)]
  rw [hreports] at hgenerate
  refine ⟨code, lowered, main, hgenerate, hlower, hm, (hends byteSums hm _ _).2 ⟨rfl, ?_⟩⟩
  decide +kernel

end Sample

end ScalarC
