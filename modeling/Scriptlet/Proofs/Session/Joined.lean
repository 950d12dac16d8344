import Scriptlet.Program
import Scriptlet.Proofs.Grammar.Program
import Scriptlet.Proofs.Run.Fuel
import Scriptlet.Proofs.Tiling.Moved

/-!
# Sources in turn and sources joined

Running sources one after another, up to the first that fails or returns a code, ends exactly when
a run of the sources joined by newlines ends, and alike. Each stage takes its part: a newline ends
every token, the grammar lets programs follow each other, and a program runs up to where the next
one begins.
-/

namespace Scriptlet

/-! ## Programs in one text -/

/-- One program may follow another. -/
theorem Grammar.Script.append {first second : List TokenKind} {program others : Program}
    (hfirst : Grammar.Script first program) (hsecond : Grammar.Script second others) :
    Grammar.Script (first ++ second) (program ++ others) := by
  induction hfirst with
  | nil => exact hsecond
  | comment text _ ih => exact .comment text ih
  | statement hstatement _ ih =>
    rw [List.append_assoc]
    exact .statement hstatement ih

/-- The source spells the program. -/
def Loads (source : String) (program : Program) : Prop :=
  ∃ tokens, lex source = .ok tokens ∧ parse tokens = .ok program

/-- Where the tokens stand is of no matter to the program. -/
theorem loads_of_kinds {source : String} {kinds : List TokenKind} {program : Program}
    (hlex : (lex source).map (List.map Token.kind) = .ok kinds)
    (hparse : parse (kinds.map fun kind ↦ ⟨kind, default⟩) = .ok program) :
    Loads source program := by
  obtain ⟨tokens, htokens, rfl⟩ := Tiling.map_eq_ok_iff.1 hlex
  refine ⟨tokens, htokens, Grammar.Script.parse ?_⟩
  have hscript := Grammar.Script.of_parse hparse
  rwa [List.map_map, List.map_map] at hscript

theorem loads_empty : Loads "" [] := ⟨[], tokenize_nil _, rfl⟩

theorem Loads.append_newline {first second : String} {program others : Program}
    (hfirst : Loads first program) (hsecond : Loads second others) :
    Loads (first ++ "\n" ++ second) (program ++ others) := by
  obtain ⟨tokens, hlex, hparse⟩ := hfirst
  obtain ⟨behind, hlexBehind, hparseBehind⟩ := hsecond
  have hlexed := Tiling.Lexed.of_tokenize hlex
  let base := (Position.origin.after first.toList).next '\n'
  have hmoved := Tiling.Lexed.of_tokenize (Tiling.tokenize_of_lex hlexBehind base)
  have hkinds : (behind.map (Token.within base)).map Token.kind = behind.map Token.kind :=
    List.map_map
  refine ⟨tokens ++ behind.map (Token.within base), ?_, Grammar.Script.parse ?_⟩
  · have htext : (first ++ "\n" ++ second).toList = first.toList ++ '\n' :: second.toList := by
      simp
    rw [lex, htext]
    exact (hlexed.append_newline hmoved).tokenize
  · rw [List.map_append, hkinds]
    exact (Grammar.Script.of_parse hparse).append (Grammar.Script.of_parse hparseBehind)

/-- Sources joined by newlines spell their programs one after another. -/
theorem loads_intercalate {sources : List String} {programs : List Program}
    (h : List.Forall₂ Loads sources programs) :
    Loads ("\n".intercalate sources) programs.flatten := by
  induction h with
  | nil => exact loads_empty
  | @cons source program others behind hsource hothers ih =>
    cases hothers with
    | nil => simpa using hsource
    | cons hnext hrest =>
      rw [String.intercalate_cons_cons, List.flatten_cons]
      exact hsource.append_newline ih

/-! ## Running one program after another -/

namespace Machine

theorem runBlock_append (run : Runner) (first second : List Node) (machine : Machine) :
    runBlock run (first ++ second) machine =
      (runBlock run first machine).bind fun machine returned ↦
        match returned with
        | some value => .done machine (some value)
        | none => runBlock run second machine := by
  induction first generalizing machine with
  | nil => rfl
  | cons node rest ih =>
    rw [List.cons_append, runBlock, runBlock, Outcome.bind_assoc]
    congr
    funext machine returned
    cases returned with
    | some value => rfl
    | none => exact ih machine

/-- A program runs up to where the one behind it begins. -/
theorem interpret_append (blockScope : Bool) (fuel : Nat) (first second : Program)
    (machine : Machine) :
    machine.interpret blockScope fuel (first ++ second) =
      (machine.interpret blockScope fuel first).bind fun machine code ↦
        match code with
        | some code => .done machine (some code)
        | none => machine.interpret blockScope fuel second := by
  unfold interpret
  rw [runBlock_append, Outcome.bind_assoc, Outcome.bind_assoc]
  congr
  funext machine returned
  cases returned <;> rfl

/-- Machines that are alike see the same endings. -/
theorem seen_interpret_congr {machine other : Machine} (h : machine.Alike other)
    (blockScope : Bool) (fuel : Nat) (program : Program) :
    (machine.interpret blockScope fuel program).seen =
      (other.interpret blockScope fuel program).seen := by
  ext ending
  exact ⟨seen_interpret_of_le (Nat.le_refl fuel) h,
    seen_interpret_of_le (Nat.le_refl fuel) ⟨h.env.symm, h.sink.symm⟩⟩

/-- Reading a source leaves only log records. -/
theorem exists_load {source : String} {program : Program} (h : Loads source program)
    (machine : Machine) : ∃ other, machine.load source = .done other program ∧
      machine.Alike other := by
  obtain ⟨tokens, hlex, hparse⟩ := h
  rw [load, lex, hlex, yield, Outcome.bind_done, Outcome.bind_done, parse, hparse, yield,
    Outcome.bind_done]
  exact ⟨_, rfl, rfl, rfl⟩

theorem seen_runSource {source : String} {program : Program} (h : Loads source program)
    (blockScope : Bool) (fuel : Nat) (machine : Machine) :
    (machine.runSource blockScope fuel source).seen =
      (machine.interpret blockScope fuel program).seen := by
  obtain ⟨other, hload, halike⟩ := exists_load h machine
  calc
    (machine.runSource blockScope fuel source).seen =
        (other.interpret blockScope fuel program).seen := by
      rw [runSource, hload, Outcome.bind_done]
    _ = (machine.interpret blockScope fuel program).seen :=
      (seen_interpret_congr halike blockScope fuel program).symm

/-- The endings of two programs in a row: the first one's, if it fails or returns, or else that of
the second one from where the first one left off. -/
theorem seen_interpret_append {blockScope : Bool} {fuel : Nat} {first second : Program}
    {machine : Machine} {ending : Ending (Option Int)} :
    (machine.interpret blockScope fuel (first ++ second)).seen = some ending ↔
      (machine.interpret blockScope fuel first).seen = some ending ∧ ending.2.2 ≠ .ok none ∨
      ∃ env sink, (machine.interpret blockScope fuel first).seen = some (env, sink, .ok none) ∧
        (interpret blockScope fuel second ⟨env, sink, machine.log⟩).seen = some ending := by
  rw [interpret_append]
  cases machine.interpret blockScope fuel first with
  | done left code =>
    cases code with
    | some code =>
      constructor
      · rintro ⟨⟩
        exact .inl ⟨rfl, nofun⟩
      · rintro (⟨h, -⟩ | ⟨_, _, ⟨⟩, -⟩)
        exact h
    | none =>
      rw [Outcome.bind_done, seen_interpret_congr
        (⟨rfl, rfl⟩ : left.Alike ⟨left.env, left.sink, machine.log⟩) blockScope fuel second]
      constructor
      · intro h
        exact .inr ⟨left.env, left.sink, rfl, h⟩
      · rintro (⟨⟨⟩, hstop⟩ | ⟨_, _, ⟨⟩, h⟩)
        · exact absurd rfl hstop
        · exact h
  | failed left error =>
    constructor
    · rintro ⟨⟩
      exact .inl ⟨rfl, nofun⟩
    · rintro (⟨h, -⟩ | ⟨_, _, ⟨⟩, -⟩)
      exact h
  | outOfFuel =>
    constructor
    · rintro ⟨⟩
    · rintro (⟨⟨⟩, -⟩ | ⟨_, _, ⟨⟩, -⟩)

end Machine

/-! ## Whole sessions -/

open Machine in
/-- The sources are run in turn, each on what the one before it left and with fuel enough to end,
up to the first that fails or returns a code. -/
inductive InTurn (blockScope : Bool) : List String → Env → Sink → Ending (Option Int) → Prop
  | nil (env : Env) (sink : Sink) : InTurn blockScope [] env sink (env, sink, .ok none)
  | stop {source : String} {others : List String} {env : Env} {sink : Sink} {log : Log}
      {fuel : Nat} {ending : Ending (Option Int)}
      (hrun : (runSource blockScope fuel source ⟨env, sink, log⟩).seen = some ending)
      (hstop : ending.2.2 ≠ .ok none) : InTurn blockScope (source :: others) env sink ending
  | next {source : String} {others : List String} {env left : Env} {sink leftSink : Sink}
      {log : Log} {fuel : Nat} {ending : Ending (Option Int)}
      (hrun : (runSource blockScope fuel source ⟨env, sink, log⟩).seen =
        some (left, leftSink, .ok none))
      (hrest : InTurn blockScope others left leftSink ending) :
      InTurn blockScope (source :: others) env sink ending

theorem inTurn_iff_interpret {blockScope : Bool} {sources : List String} {programs : List Program}
    (h : List.Forall₂ Loads sources programs) {machine : Machine} {ending : Ending (Option Int)} :
    InTurn blockScope sources machine.env machine.sink ending ↔
      ∃ fuel, (machine.interpret blockScope fuel programs.flatten).seen = some ending := by
  induction h generalizing machine with
  | nil =>
    constructor
    · rintro ⟨⟩
      exact ⟨0, rfl⟩
    · rintro ⟨fuel, ⟨⟩⟩
      exact .nil _ _
  | @cons source program others behind hsource hothers ih =>
    rw [List.flatten_cons]
    constructor
    · intro hturn
      generalize henv : machine.env = env at hturn
      generalize hsink : machine.sink = sink at hturn
      cases hturn with
      | @stop _ _ _ _ log fuel _ hrun hstop =>
        have halike : Machine.Alike ⟨env, sink, log⟩ machine := ⟨henv, hsink⟩
        rw [Machine.seen_runSource hsource, Machine.seen_interpret_congr halike] at hrun
        exact ⟨fuel, Machine.seen_interpret_append.2 (.inl ⟨hrun, hstop⟩)⟩
      | @next _ _ _ left _ leftSink log fuel _ hrun hrest =>
        have halike : Machine.Alike ⟨env, sink, log⟩ machine := ⟨henv, hsink⟩
        rw [Machine.seen_runSource hsource] at hrun
        obtain ⟨more, hmore⟩ := (@ih ⟨left, leftSink, machine.log⟩).1 hrest
        -- Both parts end with the larger of the two amounts of fuel.
        have hfirst := Machine.seen_interpret_of_le (Nat.le_max_left fuel more) halike hrun
        have hsecond := Machine.seen_interpret_of_le (Nat.le_max_right fuel more) (.refl _) hmore
        exact ⟨max fuel more,
          Machine.seen_interpret_append.2 (.inr ⟨left, leftSink, hfirst, hsecond⟩)⟩
    · rintro ⟨fuel, hfuel⟩
      rcases Machine.seen_interpret_append.1 hfuel with ⟨hrun, hstop⟩ | ⟨left, leftSink, hrun, hmore⟩
      · rw [← Machine.seen_runSource hsource] at hrun
        exact .stop hrun hstop
      · rw [← Machine.seen_runSource hsource] at hrun
        exact .next hrun ((@ih ⟨left, leftSink, machine.log⟩).2 ⟨fuel, hmore⟩)

theorem exists_programs {sources : List String}
    (h : ∀ source ∈ sources, ∃ program, Loads source program) :
    ∃ programs, List.Forall₂ Loads sources programs := by
  induction sources with
  | nil => exact ⟨[], .nil⟩
  | cons source others ih =>
    obtain ⟨⟨program, hprogram⟩, hothers⟩ := List.forall_mem_cons.1 h
    obtain ⟨programs, hprograms⟩ := ih hothers
    exact ⟨program :: programs, .cons hprogram hprograms⟩

/-- Running sources in turn ends exactly when running them joined by newlines does, and alike. -/
theorem inTurn_iff_joined {sources : List String}
    (h : ∀ source ∈ sources, ∃ program, Loads source program) (blockScope : Bool)
    (machine : Machine) (ending : Ending (Option Int)) :
    InTurn blockScope sources machine.env machine.sink ending ↔
      ∃ fuel, (machine.runSource blockScope fuel ("\n".intercalate sources)).seen = some ending := by
  obtain ⟨programs, hprograms⟩ := exists_programs h
  calc
    InTurn blockScope sources machine.env machine.sink ending ↔
        ∃ fuel, (machine.interpret blockScope fuel programs.flatten).seen = some ending :=
      inTurn_iff_interpret hprograms
    _ ↔ ∃ fuel, (machine.runSource blockScope fuel ("\n".intercalate sources)).seen =
        some ending := by
      simp only [Machine.seen_runSource (loads_intercalate hprograms)]

/-- A source that ends with a block and a comment, one that is a comment, and one that returns. -/
def seamSources : List String :=
  ["def mut x = false; if true \x7b x = true; \x7d @ seam", "@ note", "write(\"out\"); ret x;"]

theorem inTurn_iff_joined_at_seams :
    (∀ source ∈ seamSources, ∃ program, Loads source program) ∧
      ∃ fuel, ((Machine.start .unlimited .quiet).runSource true fuel
          ("\n".intercalate seamSources)).seen =
        some (⟨[("x", ⟨.boolean true, true⟩)], [], []⟩,
          { Sink.unlimited with written := "out".toUTF8, requests := 2 }, .ok (some 1)) := by
  have hblock : Loads "def mut x = false; if true \x7b x = true; \x7d @ seam"
      [.declare "x" (.boolean false) true,
        .branch (.boolean true) [.assign "x" (.boolean true)] [] none] :=
    @loads_of_kinds _ [.keyword .define, .keyword .mutable, .alpha "x", .assign,
      .keyword .falseWord, .semicolon, .keyword .ifWord, .keyword .trueWord, .leftBrace,
      .alpha "x", .assign, .keyword .trueWord, .semicolon, .rightBrace, .comment " seam"] _
      (by decide +kernel) rfl
  have hnote : Loads "@ note" [] := @loads_of_kinds _ [.comment " note"] _ (by decide +kernel) rfl
  have hret : Loads "write(\"out\"); ret x;"
      [.write false (some "out") none, .ret (.identifier "x")] :=
    @loads_of_kinds _ [.keyword .write, .leftParen, .quote, .content "out", .quote, .rightParen,
      .semicolon, .keyword .ret, .alpha "x", .semicolon] _ (by decide +kernel) rfl
  have hsources : ∀ source ∈ seamSources, ∃ program, Loads source program := by
    simp only [seamSources, List.forall_mem_cons]
    exact ⟨⟨_, hblock⟩, ⟨_, hnote⟩, ⟨_, hret⟩, List.forall_mem_nil _⟩
  let left : Machine :=
    ⟨⟨[("x", ⟨.boolean true, true⟩)], [], []⟩, .unlimited, .empty .quiet⟩
  have hfirst : ((Machine.start .unlimited .quiet).runSource true 3 _).seen =
      some (left.env, left.sink, .ok none) := (Machine.seen_runSource hblock true 3 _).trans rfl
  have hsecond : (left.runSource true 3 _).seen = some (left.env, left.sink, .ok none) :=
    (Machine.seen_runSource hnote true 3 left).trans rfl
  have hthird : (left.runSource true 3 _).seen = _ :=
    (Machine.seen_runSource hret true 3 left).trans rfl
  exact ⟨hsources, (inTurn_iff_joined hsources true (Machine.start .unlimited .quiet) _).1
    (.next hfirst (.next hsecond (.stop hthird fun h ↦ by cases h)))⟩

end Scriptlet
