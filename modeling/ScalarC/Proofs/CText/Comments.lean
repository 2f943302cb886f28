import ScalarC.Generate
import ScalarC.Proofs.CText.Emission

/-!
# The name of a unit in its file

The name of a unit is written into a comment of the banner and nowhere else. So two units that
differ in their names only are both refused or both written, and their files differ in that
comment. A line feed in the name ends the comment, and what follows it in the name is then
part of the C text.
-/

namespace ScalarC

/-! ## Comments -/

namespace Comment

/-- Where a character of a C text stands. -/
inductive Region
  | code
  | literal
  /-- In a string literal, behind a backslash. -/
  | escaped
  | comment

/-- The text without its `//` comments, from a region on. A line feed ends comments, and also
literals that were left open. -/
def strip : Region → List Char → List Char
  | _, [] => []
  | .code, c :: rest =>
    if c = '/' ∧ rest.head? = some '/' then strip .comment rest
    else c :: strip (if c = '"' then .literal else .code) rest
  | .literal, c :: rest =>
    c :: strip (if c = '"' ∨ c = '\n' then .code else if c = '\\' then .escaped else .literal) rest
  | .escaped, c :: rest => c :: strip (if c = '\n' then .code else .literal) rest
  | .comment, c :: rest => if c = '\n' then c :: strip .code rest else strip .comment rest

/-- The text of a file without its comments. -/
def withoutComments (text : String) : String := String.ofList (strip .code text.toList)

/-- What of a text is not part of the comment that it is written into. -/
def outside (text : String) : String := String.ofList (strip .comment text.toList)

theorem strip_comment_append {first : List Char} (h : '\n' ∉ first) (last : List Char) :
    strip .comment (first ++ last) = strip .comment last := by
  induction first with
  | nil => rfl
  | cons c first ih =>
    obtain ⟨hc, hfirst⟩ := not_or.1 (List.mem_cons.not.1 h)
    rw [List.cons_append, strip, if_neg (Ne.symm hc), ih hfirst]

/-- Behind a line feed the text is code, whatever stands before it. -/
theorem strip_append_newline (region : Region) (first last : List Char) :
    strip region (first ++ '\n' :: last) = strip region first ++ '\n' :: strip .code last := by
  induction first generalizing region with
  | nil => cases region <;> simp [strip]
  | cons c first ih =>
    cases region with
    | code =>
      have hhead : (first ++ '\n' :: last).head? = some '/' ↔ first.head? = some '/' := by
        cases first <;> simp
      simp only [List.cons_append, strip, hhead, ih]
      split <;> rfl
    | literal | escaped => rw [List.cons_append, strip, strip, ih, List.cons_append]
    | comment =>
      rw [List.cons_append, strip, strip, ih, ih]
      split <;> rfl

/-- Nothing but a line feed ends the comment. -/
theorem outside_eq_empty_iff (text : String) : outside text = "" ↔ '\n' ∉ text.toList := by
  rw [outside, String.ofList_eq_empty_iff]
  constructor
  · intro h hmem
    obtain ⟨first, last, hsplit⟩ := List.append_of_mem hmem
    rw [hsplit, strip_append_newline] at h
    simp at h
  · intro h
    simpa [strip] using strip_comment_append h []

/-- Comments are removed line by line. -/
theorem strip_unlines (lines : List String) :
    strip .code (unlines lines).toList
      = lines.flatMap fun line => strip .code line.toList ++ ['\n'] := by
  induction lines with
  | nil => rfl
  | cons line lines ih =>
    have hlines : (unlines (line :: lines)).toList
        = line.toList ++ '\n' :: (unlines lines).toList := by
      simp [unlines]
    rw [hlines, strip_append_newline, ih]
    simp

example : withoutComments "s = \"//\"; // set\nx = 1;" = "s = \"//\"; \nx = 1;" := by decide

end Comment

/-! ## Renamed units -/

namespace LoweredUnit

/-- The lines behind the banner. -/
def bodyLines (settings : Settings) (unit : LoweredUnit) : Except CompileError (List String) := do
  let definitions ← definitionLines settings unit.functions
  return Preamble.lines settings.routines ++ unit.stringSection ++ unit.prototypeSection
    ++ definitions ++ unit.mainLines

theorem emit_eq (settings : Settings) (unit : LoweredUnit) :
    unit.emit settings
      = (fun body => unlines (unit.bannerLines settings ++ body)) <$> unit.bodyLines settings := by
  simp only [emit, fileLines, bodyLines, map_bind, map_pure, bind_assoc, pure_bind,
    List.append_assoc]

open Comment in
/-- The line of the banner with the name is a comment up to the first line feed. -/
theorem strip_nameLine (name : String) :
    strip .code ("// Unit: " ++ name).toList = strip .comment name.toList := by
  have hopen : strip .code ("// Unit: " ++ name).toList
      = strip .comment ("/ Unit: ".toList ++ name.toList) := by
    simp [strip]
  rw [hopen, strip_comment_append (by decide)]

open Comment in
/-- Without comments the files of a unit under two names are equal exactly if there is no
banner or the names end its comment alike. -/
theorem withoutComments_renamed (settings : Settings) (unit : LoweredUnit) (name name' : String)
    (body : List String) :
    withoutComments (unlines ({ unit with name }.bannerLines settings ++ body))
        = withoutComments (unlines ({ unit with name := name' }.bannerLines settings ++ body)) ↔
      (settings.banner = true → outside name = outside name') := by
  cases hbanner : settings.banner with
  | false => simp [bannerLines, hbanner]
  | true =>
    simp only [withoutComments, outside, strip_unlines, bannerLines, hbanner, if_true,
      String.ofList_inj, List.flatMap_append, List.flatMap_cons, List.append_cancel_left_eq,
      List.append_cancel_right_eq, strip_nameLine, forall_const]

end LoweredUnit

namespace SourceUnit

variable {unit : SourceUnit} {settings : Settings} {lowered : LoweredUnit}

/-- Lowering hands the name of the unit on and does nothing else with it. -/
theorem lower_rename (unit : SourceUnit) (name : String) (settings : Settings) :
    ({ unit with name } : SourceUnit).lower settings
      = (fun lowered => { lowered with name }) <$> unit.lower settings := by
  simp only [lower, map_bind, map_pure]
  rfl

/-- The file of a lowered unit under any name: only the banner depends on the name. -/
theorem exists_generate_rename (h : unit.lower settings = .ok lowered) :
    ∃ body, ∀ name, ({ unit with name } : SourceUnit).generate settings
      = .ok ⟨unlines ({ lowered with name }.bannerLines settings ++ body), lowered.diagnostics⟩ := by
  obtain ⟨text, htext⟩ := exists_emit_of_lower h settings
  rw [LoweredUnit.emit_eq] at htext
  cases hbody : lowered.bodyLines settings with
  | error cause =>
    rw [hbody] at htext
    cases htext
  | ok body =>
    refine ⟨body, fun name => ?_⟩
    have hrenamed : { lowered with name }.bodyLines settings = .ok body := hbody
    have hemit : { lowered with name }.emit settings
        = .ok (unlines ({ lowered with name }.bannerLines settings ++ body)) := by
      rw [LoweredUnit.emit_eq, hrenamed]
      rfl
    have hlower : ({ unit with name } : SourceUnit).lower settings = .ok { lowered with name } := by
      rw [lower_rename, h]
      rfl
    rw [generate, hlower]
    simp only [bind, Except.bind, hemit]
    rfl

/-- The name of a unit only reaches comments if it does not end them. Under two names a unit
is refused with the same error or written with the same warnings. -/
theorem generate_rename (unit : SourceUnit) (name : String) (settings : Settings) :
    ((∃ abort, unit.generate settings = .error abort
        ∧ ({ unit with name } : SourceUnit).generate settings = .error abort)
      ∨ ∃ file file', unit.generate settings = .ok file
        ∧ ({ unit with name } : SourceUnit).generate settings = .ok file'
        ∧ file'.diagnostics = file.diagnostics
        ∧ (Comment.withoutComments file.code = Comment.withoutComments file'.code ↔
          (settings.banner = true → Comment.outside unit.name = Comment.outside name)))
    ∧ ∀ text, Comment.outside text = "" ↔ '\n' ∉ text.toList := by
  refine ⟨?_, Comment.outside_eq_empty_iff⟩
  cases h : unit.lower settings with
  | error abort =>
    refine .inl ⟨abort, ?_, ?_⟩
    · rw [generate, h]
      rfl
    · rw [generate, lower_rename, h]
      rfl
  | ok lowered =>
    obtain ⟨body, hbody⟩ := exists_generate_rename h
    refine .inr ⟨_, _, hbody unit.name, hbody name, rfl, ?_⟩
    exact LoweredUnit.withoutComments_renamed settings lowered unit.name name body

/-- With the banner, a unit whose name goes on behind a line feed has another C text. -/
theorem generate_rename_leaves_comment :
    ∃ file file', ({ name := "m" } : SourceUnit).generate {} = .ok file
      ∧ ({ name := "m\nint x;" } : SourceUnit).generate {} = .ok file'
      ∧ Comment.outside "m\nint x;" = "\nint x;"
      ∧ Comment.withoutComments file.code ≠ Comment.withoutComments file'.code := by
  obtain ⟨lowered, h⟩ : ∃ lowered, ({ name := "m" } : SourceUnit).lower {} = .ok lowered :=
    ⟨_, rfl⟩
  obtain ⟨body, hbody⟩ := exists_generate_rename h
  have houtside : Comment.outside "m" ≠ Comment.outside "m\nint x;" := by decide
  refine ⟨_, _, hbody "m", hbody "m\nint x;", by decide, fun heq => houtside ?_⟩
  exact (LoweredUnit.withoutComments_renamed {} lowered "m" "m\nint x;" body).1 heq rfl

end SourceUnit

end ScalarC
