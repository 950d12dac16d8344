import Scriptlet.Proofs.Environment.Within
import Scriptlet.Proofs.Output.Limit
import Scriptlet.Proofs.Session.Joined
import Scriptlet.Proofs.Tiling.Moved
import Scriptlet.Proofs.Tiling.Stuck

/-!
# A literal for every text

A text becomes the inside of a string literal by a backslash before each of its quotes and
backslashes. Everything else, newlines included, stays as it is. The literal is read as the text,
whatever stands around it, and a program that writes the literal writes the bytes of the text.
-/

namespace Scriptlet.Literal

open Tiling

/-- The text with a backslash before each quote and each backslash. -/
def escape (text : List Char) : List Char :=
  text.flatMap fun c ↦ if c = '"' ∨ c = '\\' then ['\\', c] else [c]

/-- The literal that denotes the text. -/
def quoted (text : String) : String :=
  "\"" ++ String.ofList (escape text.toList) ++ "\""

theorem toList_quoted (text : String) :
    (quoted text).toList = '"' :: (escape text.toList ++ ['"']) := by
  simp [quoted]

theorem unescapes_escape (text : List Char) : Unescapes (escape text) text := by
  induction text with
  | nil => exact .nil
  | cons c rest ih =>
    rw [escape, List.flatMap_cons]
    by_cases hescaped : c = '"' ∨ c = '\\'
    · have hescape : Escape c [c] := by
        rcases hescaped with rfl | rfl
        · exact .quote
        · exact .backslash
      rw [if_pos hescaped]
      exact .escape hescape ih
    · rw [if_neg hescaped]
      rw [not_or] at hescaped
      exact .plain hescaped.1 hescaped.2 ih

/-! ## Reading a literal -/

/-- The tokens of the literal, where `before` stands in front of it. -/
def tokensOf (before : List Char) (text : String) : List Token :=
  [⟨.quote, spanOf before ['"']⟩, ⟨.content text, spanOf (before ++ ['"']) (escape text.toList)⟩,
    ⟨.quote, spanOf (before ++ ['"'] ++ escape text.toList) ['"']⟩]

/-- A literal is read between any two texts, of which the first does not end inside a comment. -/
theorem lex_quoted {front behind : String} {first last : List Token}
    (hfront : lex front = .ok first) (hcomments : CommentsEndBefore front.toList.length first)
    (hbehind : lex behind = .ok last) (text : String) :
    lex (front ++ quoted text ++ behind) =
      .ok (first ++ tokensOf front.toList text ++
        last.map (Token.within (Position.origin.after (front ++ quoted text).toList))) := by
  have hsource : (front ++ quoted text ++ behind).toList =
      front.toList ++ '"' :: (escape text.toList ++ '"' :: behind.toList) := by
    simp [toList_quoted]
  have hstop : Position.origin.after (front ++ quoted text).toList =
      (((Position.origin.after front.toList).next '"').after (escape text.toList)).next '"' := by
    simp [toList_quoted, Position.after_append]
  have hquote : ∀ c ∈ ('"' :: (escape text.toList ++ '"' :: behind.toList)).head?,
      Separates c := by
    rintro _ ⟨⟩
    exact ⟨by decide, by decide⟩
  have hstops := hcomments.continues_eq_false hquote
  have hlength : (Position.origin.after front.toList).offset = front.toList.length := by
    rw [origin_after]
  rw [← hlength] at hstops
  have htokens : StringBody.tokens ⟨text.toList, escape text.toList, behind.toList⟩
      (Position.origin.after front.toList) = tokensOf front.toList text := by
    rw [tokens_eq_spanOf, String.ofList_toList]
    rfl
  rw [lex, hsource, tokenize_append (.of_tokenize hfront) hstops,
    tokenize_written (unescapes_escape _), ← hstop, tokenize_of_lex hbehind, htokens]
  simp [Except.map]

/-- A program with the literal in it is the one that the kinds of its tokens spell. -/
theorem loads_quoted {front behind : String} {first last : List TokenKind} {program : Program}
    {text : String} (hfront : (lex front).map (List.map Token.kind) = .ok first)
    (hplain : ∀ comment, .comment comment ∉ first)
    (hbehind : (lex behind).map (List.map Token.kind) = .ok last)
    (hparse : parse ((first ++ [TokenKind.quote, .content text, .quote] ++ last).map
      fun kind ↦ ⟨kind, default⟩) = .ok program) :
    Loads (front ++ quoted text ++ behind) program := by
  obtain ⟨opening, hopening, rfl⟩ := map_eq_ok_iff.1 hfront
  obtain ⟨closing, hclosing, rfl⟩ := map_eq_ok_iff.1 hbehind
  have hcomments : CommentsEndBefore front.toList.length opening := by
    intro comment span hmem
    exact absurd (List.mem_map_of_mem hmem) (hplain comment)
  apply loads_of_kinds _ hparse
  rw [lex_quoted hopening hcomments hclosing text, Except.map, List.map_append, List.map_append,
    List.map_map]
  rfl

theorem loads_write (text : String) :
    Loads ("write(" ++ quoted text ++ ");") [.write false (some text) none] :=
  @loads_quoted "write(" ");" [.keyword .write, .leftParen] [.rightParen, .semicolon] _ text
    (by decide +kernel) (by simp) (by decide +kernel) rfl

theorem loads_define_write (text : String) :
    Loads ("def v = " ++ quoted text ++ "; write(v);")
      [.declare "v" (.string text) false, .write false none (some (.identifier "v"))] :=
  @loads_quoted "def v = " "; write(v);" [.keyword .define, .alpha "v", .assign]
    [.semicolon, .keyword .write, .leftParen, .alpha "v", .rightParen, .semicolon] _ text
    (by decide +kernel) (by simp) (by decide +kernel) rfl

/-! ## Writing a text -/

open Machine

/-- A sink without a limit takes the whole text. -/
theorem exists_emit {machine : Machine} (h : machine.Unlimited) (text : String) :
    ∃ sink, sink.written = machine.sink.written ++ text.toUTF8 ∧
      machine.emit false text = .done { machine with sink := sink } () := by
  have hflush : ∀ sink : Sink, sink.flushFailure? = machine.sink.flushFailure? →
      flush { machine with sink := sink } =
        .done { machine with sink := { sink with requests := sink.requests + 1 } } () := by
    intro sink hsink
    rw [flush, Sink.flush, hsink, h.flushFailure?]
    rfl
  rw [emit, write_of_unlimited h, Outcome.bind_done]
  by_cases hempty : text.toUTF8.size = 0
  · refine ⟨{ machine.sink with requests := machine.sink.requests + 1 }, ?_, ?_⟩
    · rw [ByteArray.size_eq_zero_iff.1 hempty, ByteArray.append_empty]
    · rw [if_pos hempty]
      exact hflush _ rfl
  · let served := machine.sink.served text.toUTF8
    refine ⟨{ served with requests := served.requests + 1 }, rfl, ?_⟩
    rw [if_neg hempty]
    exact hflush served rfl

/-- A statement that writes the text leaves its bytes behind those that were there. -/
theorem exists_exec_write {machine : Machine} (h : machine.Unlimited) {literal : Option String}
    {expression : Option Node} {text : String}
    (hpayload : ∀ log, writePayload false literal expression { machine with log := log } =
      emit false text { machine with log := log }) (blockScope : Bool) (fuel : Nat) :
    ∃ sink log, sink.written = machine.sink.written ++ text.toUTF8 ∧
      exec blockScope (fuel + 1) (.write false literal expression) machine =
        .done ⟨machine.env, sink, log⟩ none := by
  let traced := machine.trace .interpreter ("exec " ++ (Node.write false literal expression).kind)
  have htraced : traced.Unlimited := ⟨h.refusal?, h.flushFailure?⟩
  obtain ⟨sink, hsink, hemit⟩ := exists_emit htraced text
  have hwritten : writePayload false literal expression traced =
      .done ⟨machine.env, sink, traced.log⟩ () := (hpayload traced.log).trans hemit
  refine ⟨sink, traced.log, hsink, ?_⟩
  calc
    exec blockScope (fuel + 1) (.write false literal expression) machine =
        (writePayload false literal expression traced).bind fun machine _ ↦
          .done machine none := rfl
    _ = .done ⟨machine.env, sink, traced.log⟩ none := by
      rw [hwritten, Outcome.bind_done]

theorem shown_interpret_write {machine : Machine} (h : machine.Unlimited) {literal : Option String}
    {expression : Option Node} {text : String}
    (hpayload : ∀ log, writePayload false literal expression { machine with log := log } =
      emit false text { machine with log := log }) (blockScope : Bool) (fuel : Nat) :
    (machine.interpret blockScope (fuel + 1) [.write false literal expression]).shown =
      some (machine.env, machine.sink.written ++ text.toUTF8, .ok none) := by
  obtain ⟨sink, log, hsink, hexec⟩ := exists_exec_write h hpayload blockScope fuel
  rw [interpret, runBlock, hexec, ← hsink]
  rfl

theorem shown_runSource {source : String} {program : Program} (h : Loads source program)
    (blockScope : Bool) (fuel : Nat) (machine : Machine) :
    (machine.runSource blockScope fuel source).shown =
      (machine.interpret blockScope fuel program).shown := by
  have hshown : ∀ outcome : Outcome (Option Int), outcome.shown =
      outcome.seen.map fun ending ↦ (ending.1, ending.2.1.written, ending.2.2) := by
    intro outcome
    cases outcome <;> rfl
  rw [hshown, hshown, seen_runSource h]

theorem shown_write_quoted {machine : Machine} (h : machine.Unlimited) (blockScope : Bool)
    (fuel : Nat) (text : String) :
    (machine.runSource blockScope (fuel + 1) ("write(" ++ quoted text ++ ");")).shown =
      some (machine.env, machine.sink.written ++ text.toUTF8, .ok none) := by
  rw [shown_runSource (loads_write text)]
  exact shown_interpret_write h (fun _ ↦ rfl) blockScope fuel

/-- A statement that defines a variable leaves the environment with it. -/
theorem exists_exec_declare {machine : Machine} {env : Env} {name text : String}
    (hname : (Keyword.ofWord? name).isSome = false)
    (henv : machine.env.declare name (.string text) false = .ok env) (blockScope : Bool)
    (fuel : Nat) :
    ∃ log, exec blockScope (fuel + 1) (.declare name (.string text) false) machine =
      .done ⟨env, machine.sink, log⟩ none := by
  let traced := machine.trace .interpreter
    ("exec " ++ (Node.declare name (.string text) false).kind)
  have hdeclared : traced.env.declare name (.string text) false = .ok env := henv
  have hupdate : traced.update (Env.declare name (.string text) false) =
      .done ⟨env, machine.sink, traced.log⟩ () := by
    rw [update, hdeclared]
    rfl
  refine ⟨traced.log, ?_⟩
  calc
    exec blockScope (fuel + 1) (.declare name (.string text) false) machine =
        (traced.update (Env.declare name (.string text) false)).bind fun machine _ ↦
          .done machine none := by
      rw [exec, execWith, if_neg (by simp [hname])]
      rfl
    _ = .done ⟨env, machine.sink, traced.log⟩ none := by rw [hupdate, Outcome.bind_done]

theorem shown_define_write_quoted {machine : Machine} (h : machine.Unlimited)
    (hfree : machine.env.innermost.lookup "v" = none) (blockScope : Bool) (fuel : Nat)
    (text : String) :
    (machine.runSource blockScope (fuel + 1) ("def v = " ++ quoted text ++ "; write(v);")).shown =
      some ({ machine.env with
          innermost := machine.env.innermost ++ [("v", ⟨.string text, false⟩)] },
        machine.sink.written ++ text.toUTF8, .ok none) := by
  let env : Env := { machine.env with
    innermost := machine.env.innermost ++ [("v", ⟨.string text, false⟩)] }
  have hdeclare : machine.env.declare "v" (.string text) false = .ok env := by
    rw [Env.declare, hfree]
  have hget : env.get "v" = .ok ⟨.string text, false⟩ := by
    rw [Env.get, Env.lookup?_declare hdeclare, if_pos rfl]
  obtain ⟨log, hexec⟩ := exists_exec_declare (by decide) hdeclare blockScope fuel
  have hdefined : machine.interpret blockScope (fuel + 1) [.declare "v" (.string text) false] =
      .done ⟨env, machine.sink, log⟩ none := by
    rw [interpret, runBlock, hexec]
    rfl
  have hpayload : ∀ log, writePayload false none (some (.identifier "v"))
      ⟨env, machine.sink, log⟩ = emit false text ⟨env, machine.sink, log⟩ := by
    intro log
    rw [writePayload, eval, evalExpr, hget]
    rfl
  have hunlimited : Unlimited ⟨env, machine.sink, log⟩ := ⟨h.refusal?, h.flushFailure?⟩
  calc
    (machine.runSource blockScope (fuel + 1) ("def v = " ++ quoted text ++ "; write(v);")).shown =
        (machine.interpret blockScope (fuel + 1) ([.declare "v" (.string text) false] ++
          [.write false none (some (.identifier "v"))])).shown :=
      shown_runSource (loads_define_write text) blockScope (fuel + 1) machine
    _ = (interpret blockScope (fuel + 1) [.write false none (some (.identifier "v"))]
          ⟨env, machine.sink, log⟩).shown := by
      rw [interpret_append, hdefined]
      rfl
    _ = some (env, machine.sink.written ++ text.toUTF8, .ok none) :=
      shown_interpret_write hunlimited hpayload blockScope fuel

/-! ## Literals of a source -/

/-- The three tokens of a literal among others. -/
def Occurs (opening inside closing : Span) (text : String) (tokens : List Token) : Prop :=
  [⟨.quote, opening⟩, ⟨.content text, inside⟩, ⟨.quote, closing⟩] <:+: tokens

theorem Occurs.touching {opening inside closing : Span} {text : String} {tokens : List Token}
    (h : Occurs opening inside closing text tokens) (hgrouped : Grouped tokens) :
    opening.stop = inside.start ∧ inside.stop = closing.start := by
  induction hgrouped with
  | nil => cases List.eq_nil_of_infix_nil h
  | @single token others hkind _ ih =>
    rcases List.infix_cons_iff.1 h with hfirst | hrest
    · obtain ⟨rfl, -⟩ := List.cons_prefix_cons.1 hfirst
      exact absurd (.inl rfl) hkind
    · exact ih hrest
  | @literal first second third denoted others hopening hclosing hothers ih =>
    rcases List.infix_cons_iff.1 h with hfirst | hrest
    · obtain ⟨hquote, hmore⟩ := List.cons_prefix_cons.1 hfirst
      obtain ⟨hcontent, hlast⟩ := List.cons_prefix_cons.1 hmore
      obtain ⟨hend, -⟩ := List.cons_prefix_cons.1 hlast
      cases hquote
      cases hcontent
      cases hend
      exact ⟨hopening, hclosing⟩
    rcases List.infix_cons_iff.1 hrest with hfirst | hrest
    · cases (List.cons_prefix_cons.1 hfirst).1
    rcases List.infix_cons_iff.1 hrest with hfirst | hrest
    · obtain ⟨more, rfl⟩ := (List.cons_prefix_cons.1 hfirst).2
      exact absurd rfl (hothers.kind_ne_content text)
    · exact ih hrest

/-- Where the tokens of a literal touch, the text has a literal. -/
theorem exists_written {source : List Char} {opening inside closing : Span} {text : String}
    (hfirst : Fits source ⟨.quote, opening⟩) (hsecond : Fits source ⟨.content text, inside⟩)
    (hthird : Fits source ⟨.quote, closing⟩) (hopening : opening.stop = inside.start)
    (hclosing : inside.stop = closing.start) :
    ∃ before rest body, source = before ++ '"' :: rest ∧ StringBody.scan? rest = some body ∧
      opening.stop = before.length + 1 ∧
      closing.start = body.written.length + (before.length + 1) := by
  obtain ⟨before, more, rfl, hstart⟩ :
      ∃ before more, source = before ++ more ∧ opening.start = before.length := by
    have hlength := List.length_take_of_le (hfirst.forward.trans hfirst.inside)
    exact ⟨_, _, (List.take_append_drop opening.start source).symm, hlength.symm⟩
  obtain ⟨taken, rest, rfl, hspan, hspelled, -⟩ := hfirst.exists_spelled hstart
  obtain rfl : opening = spanOf before taken := hspan
  obtain rfl := spells_quote_iff.1 hspelled
  have hinside : inside.start = (before ++ ['"']).length := by
    rw [← hopening, stop_spanOf, ← List.length_append]
  rw [← List.append_assoc] at hsecond hthird
  obtain ⟨written, rest, rfl, hspan, hspelled, -⟩ := hsecond.exists_spelled hinside
  obtain rfl : inside = spanOf (before ++ ['"']) written := hspan
  obtain ⟨denoted, hbody, rfl⟩ := spells_content_iff.1 hspelled
  have hlast : closing.start = (before ++ ['"'] ++ written).length := by
    rw [← hclosing, stop_spanOf, ← List.length_append]
  rw [← List.append_assoc] at hthird
  obtain ⟨taken, rest, rfl, -, hspelled, -⟩ := hthird.exists_spelled hlast
  obtain rfl := spells_quote_iff.1 hspelled
  refine ⟨before, written ++ '"' :: rest, ⟨denoted, written, rest⟩, rfl,
    scan?_of_unescapes hbody rest, stop_spanOf _ _, ?_⟩
  rw [hlast, List.length_append, List.length_append, Nat.add_comm]
  rfl

/-- A literal of a source closes at the first quote behind the opening one that is not escaped. -/
theorem isLeast_closes_of_occurs {source : String} {tokens : List Token}
    {opening inside closing : Span} {text : String} (hlex : lex source = .ok tokens)
    (h : Occurs opening inside closing text tokens) :
    IsLeast {index | opening.stop ≤ index ∧ Closes source.toList index} closing.start := by
  obtain ⟨hgrouped, htiles⟩ := (tokenize_eq_ok_iff [] source.toList tokens).1 hlex
  obtain ⟨hopening, hclosing⟩ := h.touching hgrouped
  have hfits : ∀ token ∈ [⟨.quote, opening⟩, ⟨.content text, inside⟩, ⟨.quote, closing⟩],
      Fits source.toList token := by
    intro token hmem
    exact htiles.fits token (h.subset hmem)
  simp only [List.forall_mem_cons] at hfits
  obtain ⟨hfirst, hsecond, hthird, -⟩ := hfits
  obtain ⟨before, rest, body, hsource, hbody, hstop, hstart⟩ :=
    exists_written hfirst hsecond hthird hopening hclosing
  rw [hsource, hstop, hstart]
  exact isLeast_closes_behind before hbody

/-- Every text can be written as a literal and comes out unchanged. The literal is read as the text
in front of any source, and writing it, at once or from a variable, puts out the bytes of the text.
Conversely, each literal that is read closes at the first quote that is not escaped. -/
theorem literals_denote_every_text :
    (∀ text tail : String, ∀ tokens, lex tail = .ok tokens →
      lex (quoted text ++ tail) = .ok (tokensOf [] text ++
        tokens.map (Token.within (Position.origin.after (quoted text).toList)))) ∧
    (∀ (text : String) (blockScope : Bool) (fuel : Nat) (machine : Machine), machine.Unlimited →
      (machine.runSource blockScope (fuel + 1) ("write(" ++ quoted text ++ ");")).shown =
        some (machine.env, machine.sink.written ++ text.toUTF8, .ok none) ∧
      (machine.env.innermost.lookup "v" = none →
        (machine.runSource blockScope (fuel + 1)
            ("def v = " ++ quoted text ++ "; write(v);")).shown =
          some ({ machine.env with
              innermost := machine.env.innermost ++ [("v", ⟨.string text, false⟩)] },
            machine.sink.written ++ text.toUTF8, .ok none))) ∧
    ∀ source tokens, lex source = .ok tokens → ∀ opening inside closing text,
      Occurs opening inside closing text tokens →
      IsLeast {index | opening.stop ≤ index ∧ Closes source.toList index} closing.start := by
  refine ⟨?_, ?_, ?_⟩
  · intro text tail tokens htail
    have hnone : lex "" = .ok [] := tokenize_nil _
    have hcomments : CommentsEndBefore "".toList.length [] := fun _ _ hmem ↦ absurd hmem (by simp)
    have hlex := lex_quoted hnone hcomments htail text
    simpa using hlex
  · intro text blockScope fuel machine hunlimited
    constructor
    · exact shown_write_quoted hunlimited blockScope fuel text
    · intro hfree
      exact shown_define_write_quoted hunlimited hfree blockScope fuel text
  · intro source tokens hlex opening inside closing text hoccurs
    exact isLeast_closes_of_occurs hlex hoccurs

/-- A quote, a backslash, a newline, a letter that is special behind a backslash, and a backslash at
the end. -/
def thorny : String := "\"\\\nn\\"

theorem literals_denote_every_text_thorny :
    (lex "@ end" = .ok [⟨.comment " end", ⟨0, 5, 1, 1⟩⟩] ∧
      lex (quoted thorny ++ "@ end") =
        .ok (tokensOf [] thorny ++ [⟨.comment " end", ⟨10, 15, 2, 5⟩⟩])) ∧
    (Unlimited (start .unlimited .quiet) ∧ Env.empty.innermost.lookup "v" = none ∧
      ((start .unlimited .quiet).runSource true 1 ("write(" ++ quoted thorny ++ ");")).shown =
        some (.empty, .empty ++ thorny.toUTF8, .ok none) ∧
      ((start .unlimited .quiet).runSource true 1
          ("def v = " ++ quoted thorny ++ "; write(v);")).shown =
        some (⟨[("v", ⟨.string thorny, false⟩)], [], []⟩, .empty ++ thorny.toUTF8, .ok none)) ∧
    lex "\"\\\"\\\\\"" = .ok [⟨.quote, ⟨0, 1, 1, 1⟩⟩, ⟨.content "\"\\", ⟨1, 5, 1, 2⟩⟩,
      ⟨.quote, ⟨5, 6, 1, 6⟩⟩] ∧
    IsLeast {index | 1 ≤ index ∧ Closes "\"\\\"\\\\\"".toList index} 5 := by
  obtain ⟨hreads, hruns, hcloses⟩ := literals_denote_every_text
  have htail : lex "@ end" = .ok [⟨.comment " end", ⟨0, 5, 1, 1⟩⟩] := by decide +kernel
  have hmoved : [⟨.comment " end", ⟨0, 5, 1, 1⟩⟩].map
      (Token.within (Position.origin.after (quoted thorny).toList)) =
        [⟨.comment " end", ⟨10, 15, 2, 5⟩⟩] := by
    decide +kernel
  have hunlimited : Unlimited (start .unlimited .quiet) := ⟨rfl, rfl⟩
  obtain ⟨hwrite, hdefine⟩ := hruns thorny true 0 _ hunlimited
  have hlex : lex "\"\\\"\\\\\"" = .ok [⟨.quote, ⟨0, 1, 1, 1⟩⟩,
      ⟨.content "\"\\", ⟨1, 5, 1, 2⟩⟩, ⟨.quote, ⟨5, 6, 1, 6⟩⟩] := by
    decide +kernel
  have hfirst := hcloses _ _ hlex ⟨0, 1, 1, 1⟩ ⟨1, 5, 1, 2⟩ ⟨5, 6, 1, 6⟩ "\"\\" (List.infix_refl _)
  exact ⟨⟨htail, hmoved ▸ hreads thorny _ _ htail⟩, ⟨hunlimited, rfl, hwrite, hdefine rfl⟩, hlex,
    hfirst⟩

end Scriptlet.Literal
