import ScalarC.Proofs.CText.OpLines

/-!
# Blocks of operations are read back

A block ends where a line is indented less, or, in front of the body of a loop, where the line
stands that leaves the loop. Neither starts an operation. So the lines of a block tell its
operations at every depth, up to the distinction between copies and casts, whatever follows
them: an empty second arm has no lines, and a second arm has a keyword of its own.
-/

namespace ScalarC

/-! ## The lines of blocks -/

namespace LoweredFunction

variable {code : LoweredFunction} {indent : String} {lines : List String}

/-- What follows the first arm of a branch. -/
def elseLines (indent : String) (elseOps : List Op) (inner : List String) : List String :=
  if elseOps = [] then [indent ++ "\x7d"]
  else (indent ++ "\x7d else \x7b") :: (inner ++ [indent ++ "\x7d"])

theorem opLines_branch {cond : Register} {thenOps elseOps : List Op}
    (h : code.opLines indent (.branch cond thenOps elseOps) = .ok lines) :
    ∃ thenInner elseInner, code.opsLines (indent ++ "    ") thenOps = .ok thenInner
      ∧ code.opsLines (indent ++ "    ") elseOps = .ok elseInner
      ∧ lines = (indent ++ ("if (" ++ cond.name ++ ") \x7b"))
        :: (thenInner ++ elseLines indent elseOps elseInner) := by
  simp only [opLines, bind_eq_ok, pure_eq_ok] at h
  obtain ⟨thenInner, hthen, elseInner, helse, rfl⟩ := h
  refine ⟨thenInner, elseInner, hthen, helse, ?_⟩
  cases elseOps <;> simp [elseLines, String.append_assoc]

theorem opLines_loop {cond : Register} {condOps body : List Op}
    (h : code.opLines indent (.loop condOps cond body) = .ok lines) :
    ∃ condInner bodyInner, code.opsLines (indent ++ "    ") condOps = .ok condInner
      ∧ code.opsLines (indent ++ "    ") body = .ok bodyInner
      ∧ lines = (indent ++ "while (1) \x7b") :: (condInner
        ++ (indent ++ "    " ++ ("if (!" ++ cond.name ++ ") break;"))
          :: (bodyInner ++ [indent ++ "\x7d"])) := by
  simp only [opLines, bind_eq_ok, pure_eq_ok] at h
  obtain ⟨condInner, hcond, bodyInner, hbody, rfl⟩ := h
  refine ⟨condInner, bodyInner, hcond, hbody, ?_⟩
  have hbreak : "    if (!" = "    " ++ "if (!" := rfl
  rw [hbreak]
  simp only [String.append_assoc, List.cons_append, List.append_assoc]

theorem eq_nil_of_opsLines {ops : List Op} (h : code.opsLines indent ops = .ok lines) :
    ops = [] → lines = [] := by
  rintro rfl
  cases h
  rfl

theorem opsLines_cons {op : Op} {ops : List Op}
    (h : code.opsLines indent (op :: ops) = .ok lines) :
    ∃ first tail, code.opLines indent op = .ok first ∧ code.opsLines indent ops = .ok tail
      ∧ lines = first ++ tail := by
  simp only [opsLines, bind_eq_ok, pure_eq_ok] at h
  obtain ⟨first, hfirst, tail, htail, rfl⟩ := h
  exact ⟨first, tail, hfirst, htail, rfl⟩

mutual

/-- The lines of an operation are indented. -/
theorem isPrefix_of_opLines {code : LoweredFunction} {indent : String} (op : Op)
    {lines : List String} (h : code.opLines indent op = .ok lines) :
    ∀ line ∈ lines, indent.toList <+: line.toList := by
  have hline (text : String) : indent.toList <+: (indent ++ text).toList := by simp
  cases op with
  | branch cond thenOps elseOps =>
    obtain ⟨thenInner, elseInner, hthen, helse, rfl⟩ := opLines_branch h
    have hthenInner line (hmem : line ∈ thenInner) :=
      (hline _).trans (isPrefix_of_opsLines thenOps hthen line hmem)
    have helseInner line (hmem : line ∈ elseInner) :=
      (hline _).trans (isPrefix_of_opsLines elseOps helse line hmem)
    refine List.forall_mem_cons.2 ⟨hline _, List.forall_mem_append.2 ⟨hthenInner, ?_⟩⟩
    unfold elseLines
    split
    · exact List.forall_mem_singleton.2 (hline _)
    · refine List.forall_mem_cons.2 ⟨hline _, List.forall_mem_append.2 ⟨helseInner, ?_⟩⟩
      exact List.forall_mem_singleton.2 (hline _)
  | loop condOps cond body =>
    obtain ⟨condInner, bodyInner, hcond, hbody, rfl⟩ := opLines_loop h
    have hcondInner line (hmem : line ∈ condInner) :=
      (hline _).trans (isPrefix_of_opsLines condOps hcond line hmem)
    have hbodyInner line (hmem : line ∈ bodyInner) :=
      (hline _).trans (isPrefix_of_opsLines body hbody line hmem)
    have hbreak : indent.toList
        <+: (indent ++ "    " ++ ("if (!" ++ cond.name ++ ") break;")).toList := by simp
    refine List.forall_mem_cons.2 ⟨hline _, List.forall_mem_append.2 ⟨hcondInner, ?_⟩⟩
    refine List.forall_mem_cons.2 ⟨hbreak, List.forall_mem_append.2 ⟨hbodyInner, ?_⟩⟩
    exact List.forall_mem_singleton.2 (hline _)
  | call dest callee args => cases dest <;> cases h <;> simp
  | ret value => cases value <;> cases h <;> simp
  | loadConst | loadLocal | print =>
    cases h
    simp [assignment]
  | _ =>
    simp only [opLines, bind_eq_ok, pure_eq_ok] at h
    obtain ⟨_, _, _, _, rfl⟩ := h
    simp [assignment]

theorem isPrefix_of_opsLines {code : LoweredFunction} {indent : String} (ops : List Op)
    {lines : List String} (h : code.opsLines indent ops = .ok lines) :
    ∀ line ∈ lines, indent.toList <+: line.toList := by
  cases ops with
  | nil =>
    cases h
    exact List.forall_mem_nil _
  | cons op ops =>
    obtain ⟨first, tail, hfirst, htail, rfl⟩ := opsLines_cons h
    exact List.forall_mem_append.2
      ⟨isPrefix_of_opLines op hfirst, isPrefix_of_opsLines ops htail⟩

end

end LoweredFunction

namespace Op

mutual

/-- The operation with a copy in place of every cast, at every depth. -/
def plain : Op → Op
  | .cast dest src => .copy dest src
  | .branch cond thenOps elseOps => .branch cond (plainAll thenOps) (plainAll elseOps)
  | .loop condOps cond body => .loop (plainAll condOps) cond (plainAll body)
  | op => op

def plainAll : List Op → List Op
  | [] => []
  | op :: rest => op.plain :: plainAll rest

end

/-! ## What holds at every depth -/

section

variable {P : Op → Prop}

theorem forall_nested_branch {cond : Register} {thenOps elseOps : List Op}
    (h : ∀ op ∈ (branch cond thenOps elseOps).nested, P op) :
    (∀ op ∈ nestedAll thenOps, P op) ∧ ∀ op ∈ nestedAll elseOps, P op := by
  rw [nested] at h
  exact List.forall_mem_append.1 (List.forall_mem_cons.1 h).2

theorem forall_nested_loop {condOps body : List Op} {cond : Register}
    (h : ∀ op ∈ (loop condOps cond body).nested, P op) :
    (∀ op ∈ nestedAll condOps, P op) ∧ ∀ op ∈ nestedAll body, P op := by
  rw [nested] at h
  exact List.forall_mem_append.1 (List.forall_mem_cons.1 h).2

theorem forall_nestedAll_cons {op : Op} {ops : List Op}
    (h : ∀ other ∈ nestedAll (op :: ops), P other) :
    (∀ other ∈ op.nested, P other) ∧ ∀ other ∈ nestedAll ops, P other := by
  rw [nestedAll] at h
  exact List.forall_mem_append.1 h

end

theorem plain_of_hasBlocks {op : Op} (h : op.hasBlocks = false) : op.plain = op.opening := by
  cases op with
  | branch | loop => cases h
  | _ => rfl

theorem hasBlocks_opening (op : Op) : op.opening.hasBlocks = op.hasBlocks := by
  cases op <;> rfl

/-! ## Where blocks end -/

/-- The lines go on with no operation of the block. -/
def Stops (indent : String) (lines : List String) : Prop :=
  ∀ text rest, lines = (indent ++ text) :: rest → ofLine? text.toList = none

/-- A line that is indented less ends a block. -/
theorem stops_of_outer {text : String} (htext : text.toList.head? ≠ some ' ') (indent : String)
    (rest : List String) : Stops (indent ++ "    ") ((indent ++ text) :: rest) := by
  intro inner rest' heq
  rw [List.cons.injEq, String.append_assoc, String.append_right_inj] at heq
  rw [heq.1] at htext
  simp at htext

theorem stops_elseLines (indent : String) (elseOps : List Op) (inner rest : List String) :
    Stops (indent ++ "    ") (LoweredFunction.elseLines indent elseOps inner ++ rest) := by
  unfold LoweredFunction.elseLines
  split <;> exact stops_of_outer (by decide) indent _

theorem stops_break (indent : String) (cond : Register) (rest : List String) :
    Stops indent ((indent ++ ("if (!" ++ cond.name ++ ") break;")) :: rest) := by
  intro text rest' heq
  rw [List.cons.injEq, String.append_right_inj] at heq
  rw [← heq.1]
  exact ofLine?_break cond

/-- Every operation starts with a line that tells it. -/
theorem exists_first {code : LoweredFunction} {indent : String} {op : Op} {lines : List String}
    (hsymbol : Line.IsWord code.symbol.toList)
    (h : code.opLines indent op = .ok lines) (hlegible : op.Legible) :
    ∃ text rest, lines = (indent ++ text) :: rest ∧ op.WrittenAs text
      ∧ (op.hasBlocks = false → rest = []) := by
  by_cases hblocks : op.hasBlocks = false
  · obtain ⟨text, rfl, hwritten⟩ := exists_line hsymbol h hlegible hblocks
    exact ⟨text, [], rfl, hwritten, fun _ => rfl⟩
  · cases op with
    | branch cond thenOps elseOps =>
      obtain ⟨thenInner, elseInner, _, _, rfl⟩ := LoweredFunction.opLines_branch h
      refine ⟨_, _, rfl, ⟨ofLine?_branch cond, ?_⟩, fun hfalse => absurd hfalse hblocks⟩
      simp [(Line.isWord_register cond).notMem (c := '\n') (by decide)]
    | loop condOps cond body =>
      obtain ⟨condInner, bodyInner, _, _, rfl⟩ := LoweredFunction.opLines_loop h
      exact ⟨_, _, rfl, ⟨rfl, by decide⟩, fun hfalse => absurd hfalse hblocks⟩
    | _ => exact absurd rfl hblocks

/-- The keyword of a second arm tells whether there is one. -/
theorem inner_eq_of_elseLines {indent : String} {elseOps elseOps' : List Op}
    {inner inner' rest rest' : List String} (hinner : elseOps = [] → inner = [])
    (hinner' : elseOps' = [] → inner' = [])
    (h : LoweredFunction.elseLines indent elseOps inner ++ rest
      = LoweredFunction.elseLines indent elseOps' inner' ++ rest') :
    inner ++ (indent ++ "\x7d") :: rest = inner' ++ (indent ++ "\x7d") :: rest' := by
  have hkeyword : indent ++ "\x7d" ≠ indent ++ "\x7d else \x7b" := by
    rw [Ne, String.append_right_inj]
    decide
  unfold LoweredFunction.elseLines at h
  split at h
  · split at h
    · simp_all
    · exact absurd (List.cons.inj h).1 hkeyword
  · split at h
    · exact absurd (List.cons.inj h).1.symm hkeyword
    · simpa using h

/-- An operation does not start where a block stops. -/
theorem false_of_stops {code : LoweredFunction} {indent : String} {op : Op}
    {lines rest rest' : List String} (hsymbol : Line.IsWord code.symbol.toList)
    (hlegible : op.Legible) (h : code.opLines indent op = .ok lines)
    (hstops : Stops indent rest') (heq : lines ++ rest = rest') : False := by
  obtain ⟨text, tail, rfl, hwritten, _⟩ := exists_first hsymbol h hlegible
  have hnone := hstops text (tail ++ rest) heq.symm
  rw [hwritten.read] at hnone
  cases hnone

/-! ## Two functions with the same lines -/

section

variable {f g : LoweredFunction} (hf : Line.IsWord f.symbol.toList)
  (hg : Line.IsWord g.symbol.toList)
include hf hg

/-- The first lines of two operations tell whether they open alike. -/
theorem opening_eq {indent : String} {op op' : Op} {lines lines' rest rest' : List String}
    (hlegible : op.Legible) (hlegible' : op'.Legible) (h : f.opLines indent op = .ok lines)
    (h' : g.opLines indent op' = .ok lines') (heq : lines ++ rest = lines' ++ rest') :
    op.opening = op'.opening ∧ (op.hasBlocks = false → rest = rest') := by
  obtain ⟨text, tail, rfl, hwritten, htail⟩ := exists_first hf h hlegible
  obtain ⟨text', tail', rfl, hwritten', htail'⟩ := exists_first hg h' hlegible'
  rw [List.cons_append, List.cons_append, List.cons.injEq, String.append_right_inj] at heq
  have hopening : op.opening = op'.opening := by
    have hread := hwritten.read
    rw [heq.1, hwritten'.read, Option.some.injEq] at hread
    exact hread.symm
  refine ⟨hopening, fun hblocks => ?_⟩
  have hblocks' : op'.hasBlocks = false := by
    rw [← hasBlocks_opening, ← hopening, hasBlocks_opening, hblocks]
  simpa [htail hblocks, htail' hblocks'] using heq.2

mutual

/-- The lines of an operation tell it, up to casts, and where it ends. -/
theorem plain_eq_of_opLines {indent : String} (op op' : Op)
    {lines lines' rest rest' : List String} (hlegible : ∀ other ∈ op.nested, other.Legible)
    (hlegible' : ∀ other ∈ op'.nested, other.Legible) (h : f.opLines indent op = .ok lines)
    (h' : g.opLines indent op' = .ok lines') (heq : lines ++ rest = lines' ++ rest') :
    op.plain = op'.plain ∧ rest = rest' := by
  obtain ⟨hopening, hrest⟩ := opening_eq hf hg (hlegible op op.mem_nested_self)
    (hlegible' op' op'.mem_nested_self) h h' heq
  cases op with
  | branch cond thenOps elseOps =>
    cases op' with
    | branch cond' thenOps' elseOps' =>
      obtain ⟨rfl⟩ : cond = cond' := by simpa [opening] using hopening
      obtain ⟨hthenLegible, helseLegible⟩ := forall_nested_branch hlegible
      obtain ⟨hthenLegible', helseLegible'⟩ := forall_nested_branch hlegible'
      obtain ⟨thenInner, elseInner, hthen, helse, rfl⟩ := LoweredFunction.opLines_branch h
      obtain ⟨thenInner', elseInner', hthen', helse', rfl⟩ := LoweredFunction.opLines_branch h'
      have hlines : thenInner ++ (LoweredFunction.elseLines indent elseOps elseInner ++ rest)
          = thenInner' ++ (LoweredFunction.elseLines indent elseOps' elseInner' ++ rest') := by
        simpa using heq
      obtain ⟨hthenOps, hafter⟩ := plainAll_eq_of_opsLines thenOps thenOps' hthenLegible
        hthenLegible' hthen hthen' (stops_elseLines _ _ _ _) (stops_elseLines _ _ _ _) hlines
      -- an arm that is left out has no lines either, so both kinds of arms are read alike
      have hinner := inner_eq_of_elseLines (LoweredFunction.eq_nil_of_opsLines helse)
        (LoweredFunction.eq_nil_of_opsLines helse') hafter
      obtain ⟨helseOps, hafter⟩ := plainAll_eq_of_opsLines elseOps elseOps' helseLegible
        helseLegible' helse helse' (stops_of_outer (by decide) _ _)
        (stops_of_outer (by decide) _ _) hinner
      exact ⟨by rw [plain, plain, hthenOps, helseOps], (List.cons.inj hafter).2⟩
    | _ => simp [opening] at hopening
  | loop condOps cond body =>
    cases op' with
    | loop condOps' cond' body' =>
      obtain ⟨hcondLegible, hbodyLegible⟩ := forall_nested_loop hlegible
      obtain ⟨hcondLegible', hbodyLegible'⟩ := forall_nested_loop hlegible'
      obtain ⟨condInner, bodyInner, hcond, hbody, rfl⟩ := LoweredFunction.opLines_loop h
      obtain ⟨condInner', bodyInner', hcond', hbody', rfl⟩ := LoweredFunction.opLines_loop h'
      simp only [List.cons_append, List.append_assoc, List.cons.injEq, true_and] at heq
      obtain ⟨hcondOps, hafter⟩ := plainAll_eq_of_opsLines condOps condOps' hcondLegible
        hcondLegible' hcond hcond' (stops_break _ cond _) (stops_break _ cond' _) heq
      -- the line that leaves the loop tells the condition
      rw [List.cons.injEq] at hafter
      obtain ⟨hbodyOps, hafter'⟩ := plainAll_eq_of_opsLines body body' hbodyLegible
        hbodyLegible' hbody hbody' (stops_of_outer (by decide) _ _)
        (stops_of_outer (by decide) _ _) hafter.2
      have hname : cond = cond' := by
        simpa [String.append_right_inj, Register.name_inj] using hafter.1
      exact ⟨by rw [plain, plain, hcondOps, hbodyOps, hname], (List.cons.inj hafter').2⟩
    | _ => simp [opening] at hopening
  | _ =>
    have hblocks' : op'.hasBlocks = false := by
      rw [← hasBlocks_opening, ← hopening]
      rfl
    exact ⟨by rw [plain_of_hasBlocks rfl, plain_of_hasBlocks hblocks', hopening], hrest rfl⟩

/-- The lines of a block tell its operations, up to casts, if what follows does not start
another. -/
theorem plainAll_eq_of_opsLines {indent : String} (ops ops' : List Op)
    {lines lines' rest rest' : List String} (hlegible : ∀ op ∈ nestedAll ops, op.Legible)
    (hlegible' : ∀ op ∈ nestedAll ops', op.Legible) (h : f.opsLines indent ops = .ok lines)
    (h' : g.opsLines indent ops' = .ok lines') (hstops : Stops indent rest)
    (hstops' : Stops indent rest') (heq : lines ++ rest = lines' ++ rest') :
    plainAll ops = plainAll ops' ∧ rest = rest' := by
  cases ops with
  | nil =>
    cases h
    cases ops' with
    | nil =>
      cases h'
      exact ⟨rfl, heq⟩
    | cons op' ops' =>
      obtain ⟨first', tail', hfirst', htail', rfl⟩ := LoweredFunction.opsLines_cons h'
      have hop' := (forall_nestedAll_cons hlegible').1 op' op'.mem_nested_self
      have hlines : first' ++ (tail' ++ rest') = rest := by
        rw [← List.append_assoc, ← heq, List.nil_append]
      exact (false_of_stops hg hop' hfirst' hstops hlines).elim
  | cons op ops =>
    obtain ⟨first, tail, hfirst, htail, rfl⟩ := LoweredFunction.opsLines_cons h
    obtain ⟨hopLegible, hopsLegible⟩ := forall_nestedAll_cons hlegible
    cases ops' with
    | nil =>
      -- the other block has stopped where this one goes on
      cases h'
      have hlines : first ++ (tail ++ rest) = rest' := by
        rw [← List.append_assoc, heq, List.nil_append]
      exact (false_of_stops hf (hopLegible op op.mem_nested_self) hfirst hstops' hlines).elim
    | cons op' ops' =>
      obtain ⟨first', tail', hfirst', htail', rfl⟩ := LoweredFunction.opsLines_cons h'
      rw [List.append_assoc, List.append_assoc] at heq
      obtain ⟨hopLegible', hopsLegible'⟩ := forall_nestedAll_cons hlegible'
      obtain ⟨hplain, hrest⟩ :=
        plain_eq_of_opLines op op' hopLegible hopLegible' hfirst hfirst' heq
      obtain ⟨hplainAll, hrest⟩ := plainAll_eq_of_opsLines ops ops' hopsLegible hopsLegible' htail
        htail' hstops hstops' hrest
      exact ⟨by rw [plainAll, plainAll, hplain, hplainAll], hrest⟩

end

end

/-! ## No line breaks -/

mutual

theorem newline_notMem_opLines {code : LoweredFunction} {indent : String}
    (hsymbol : Line.IsWord code.symbol.toList) (hindent : '\n' ∉ indent.toList) (op : Op)
    {lines : List String} (hlegible : ∀ other ∈ op.nested, other.Legible)
    (h : code.opLines indent op = .ok lines) : ∀ line ∈ lines, '\n' ∉ line.toList := by
  have hinner : '\n' ∉ (indent ++ "    ").toList := by simpa using hindent
  obtain ⟨text, rest, hlines, hwritten, hrest⟩ :=
    exists_first hsymbol h (hlegible op op.mem_nested_self)
  have hfirst : '\n' ∉ (indent ++ text).toList := by
    simpa using ⟨hindent, hwritten.newline⟩
  have hclosing : '\n' ∉ (indent ++ "\x7d").toList := by simpa using hindent
  cases op with
  | branch cond thenOps elseOps =>
    obtain ⟨thenInner, elseInner, hthen, helse, rfl⟩ := LoweredFunction.opLines_branch h
    obtain ⟨htext, rfl⟩ := List.cons.inj hlines
    obtain ⟨hthenLegible, helseLegible⟩ := forall_nested_branch hlegible
    have hthenInner := newline_notMem_opsLines hsymbol hinner thenOps hthenLegible hthen
    have helseInner := newline_notMem_opsLines hsymbol hinner elseOps helseLegible helse
    rw [htext]
    refine List.forall_mem_cons.2 ⟨hfirst, List.forall_mem_append.2 ⟨hthenInner, ?_⟩⟩
    unfold LoweredFunction.elseLines
    split
    · exact List.forall_mem_singleton.2 hclosing
    · refine List.forall_mem_cons.2 ⟨by simpa using hindent, ?_⟩
      exact List.forall_mem_append.2 ⟨helseInner, List.forall_mem_singleton.2 hclosing⟩
  | loop condOps cond body =>
    obtain ⟨condInner, bodyInner, hcond, hbody, rfl⟩ := LoweredFunction.opLines_loop h
    obtain ⟨htext, rfl⟩ := List.cons.inj hlines
    obtain ⟨hcondLegible, hbodyLegible⟩ := forall_nested_loop hlegible
    have hcondInner := newline_notMem_opsLines hsymbol hinner condOps hcondLegible hcond
    have hbodyInner := newline_notMem_opsLines hsymbol hinner body hbodyLegible hbody
    have hbreak : '\n' ∉ (indent ++ "    " ++ ("if (!" ++ cond.name ++ ") break;")).toList := by
      simpa [(Line.isWord_register cond).notMem (c := '\n') (by decide)] using hindent
    rw [htext]
    refine List.forall_mem_cons.2 ⟨hfirst, List.forall_mem_append.2 ⟨hcondInner, ?_⟩⟩
    refine List.forall_mem_cons.2 ⟨hbreak, List.forall_mem_append.2 ⟨hbodyInner, ?_⟩⟩
    exact List.forall_mem_singleton.2 hclosing
  | _ =>
    rw [hlines, hrest rfl]
    exact List.forall_mem_singleton.2 hfirst

theorem newline_notMem_opsLines {code : LoweredFunction} {indent : String}
    (hsymbol : Line.IsWord code.symbol.toList) (hindent : '\n' ∉ indent.toList)
    (ops : List Op) {lines : List String} (hlegible : ∀ op ∈ nestedAll ops, op.Legible)
    (h : code.opsLines indent ops = .ok lines) : ∀ line ∈ lines, '\n' ∉ line.toList := by
  cases ops with
  | nil =>
    cases h
    exact List.forall_mem_nil _
  | cons op ops =>
    obtain ⟨first, tail, hfirst, htail, rfl⟩ := LoweredFunction.opsLines_cons h
    obtain ⟨hopLegible, hopsLegible⟩ := forall_nestedAll_cons hlegible
    exact List.forall_mem_append.2
      ⟨newline_notMem_opLines hsymbol hindent op hopLegible hfirst,
        newline_notMem_opsLines hsymbol hindent ops hopsLegible htail⟩

end

end Op

end ScalarC
