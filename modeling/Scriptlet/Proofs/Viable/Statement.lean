import Scriptlet.Proofs.Viable.Expression

/-!
# Where the readers of statements without blocks stop

Bindings, loop headers' updates, output and returned values. A reader that chooses by the first
token chooses the same for every input that starts with it. An update chooses by the second token
as well; it has then taken the name in front of it, which starts an expression as well as an
assignment.
-/

namespace Scriptlet.Viable

open Scriptlet.Parser Scriptlet.Grammar

variable {setting : Setting} {tokens : List Token}

/-! ## Bindings -/

/-- An expression that starts with none of the kinds that `excluded` names. -/
def Started (excluded : TokenKind → Prop) (kinds : List TokenKind) (node : Node) : Prop :=
  Comparison kinds node ∧ ∀ kind ∈ kinds.head?, ¬excluded kind

theorem tracks_started {excluded : TokenKind → Prop} (hname : ¬excluded (.alpha ""))
    (h : Apart excluded tokens) (hlength : tokens.length ≤ setting.budget) :
    Tracks Setting.budget (fun setting ↦ expression setting.ending setting.budget)
      (Started excluded) setting tokens := by
  refine (tracks_expression hlength).imp ?_ ?_
  · rintro used rest node rfl hnode
    exact ⟨hnode, apart_kinds_of_append h⟩
  · rintro used rest rfl ⟨more, node, hnode⟩
    cases used with
    | nil =>
      have hnode : Operand [.alpha ""] (.identifier "") := .atom (.identifier rfl)
      refine ⟨[.alpha ""], .identifier "", .sum (.product (.power (.operand hnode))), ?_⟩
      simpa using hname
    | cons token others =>
      refine ⟨more, node, hnode, ?_⟩
      simpa using apart_cons.1 h

theorem tracks_bindingValue (hlength : tokens.length ≤ setting.budget) :
    Tracks Setting.budget (fun setting ↦ bindingValue setting.ending setting.budget) Value setting
      tokens := by
  by_cases hliteral : Apart opensLiteral tokens
  · have hexpression : Tracks Setting.budget
        (fun setting ↦ expression setting.ending setting.budget) Value setting tokens :=
      (tracks_started (by simp [opensLiteral]) hliteral hlength).mono fun _ _ h ↦
        .expression h.1 h.2
    exact hexpression.congr (bindingValue_eq_expression hliteral) fun _ _ hfront _ ↦
      bindingValue_eq_expression (hfront.apart hliteral)
  · obtain ⟨⟨kind, span⟩, rest, rfl, rfl | rfl | rfl⟩ := exists_cons_of_not_apart hliteral
    · exact (tracks_stringLiteral.map Node.string fun _ _ ↦ Value.string).congr_cons
        fun _ _ ↦ rfl
    · exact tracks_token (fun _ _ ↦ rfl) .true
    · exact tracks_token (fun _ _ ↦ rfl) .false

theorem tracks_binding (build : String → Node → Node)
    (hlength : tokens.length ≤ setting.budget + 1) :
    Tracks (fun other ↦ other.budget + 1)
      (fun setting ↦ binding setting.ending build setting.budget) (Bound build) setting tokens := by
  refine tracks_identifier.bind Setting.budget ?_ ?_ ?_
  · rintro _ name ⟨kind, rfl, hname⟩
    exact ⟨_, _, .bound hname .true⟩
  · intro used name hname other tail htail
    rw [List.length_append, hname.length_eq_one] at htail
    omega
  · rintro used name rest rfl hnamed _
    rw [List.length_append, hnamed.length_eq_one] at hlength
    obtain ⟨kind, hkinds, hname⟩ := hnamed
    rw [hkinds]
    refine tracks_expect (fun _ ↦ Nat.le_succ _) ⟨_, _, .bound hname .true⟩ fun rest hshorter ↦ ?_
    refine (tracks_bindingValue (by omega)).then (fun kinds value hvalue ↦
      ⟨_, _, .bound hname hvalue⟩) fun used value rest hvalue _ ↦ ?_
    exact tracks_expect (fun _ ↦ Nat.le_succ _) ⟨[], _, .bound hname hvalue⟩ fun _ _ ↦
      tracks_pure (.bound hname hvalue)

theorem declaration_eq_binding {ending : Span} {budget : Nat}
    (h : Apart (· = .keyword .mutable) tokens) :
    declaration ending budget tokens =
      binding ending (fun name value ↦ .declare name value false) budget tokens := by
  unfold declaration
  split
  · exact (apart_cons.1 h rfl).elim
  · rfl

theorem tracks_declaration (hlength : tokens.length ≤ setting.budget + 1) :
    Tracks (fun other ↦ other.budget + 1) (fun setting ↦ declaration setting.ending setting.budget)
      Declared setting tokens := by
  by_cases hmutable : Apart (· = .keyword .mutable) tokens
  · have hbinding := (tracks_binding (fun name value ↦ .declare name value false) hlength).mono
      fun _ _ ↦ Declared.immutable
    exact hbinding.congr (declaration_eq_binding hmutable) fun _ _ hfront _ ↦
      declaration_eq_binding (hfront.apart hmutable)
  · obtain ⟨⟨_, span⟩, rest, rfl, rfl⟩ := exists_cons_of_not_apart hmutable
    rw [List.length_cons] at hlength
    have hrest : rest.length ≤ setting.budget + 1 := by omega
    have hbinding := (tracks_binding (fun name value ↦ .declare name value true) hrest).mono
      fun _ _ ↦ Declared.mutable
    exact hbinding.cons (fun _ ↦ Nat.le_succ _) rfl fun _ _ _ _ ↦ rfl

/-- The kinds that open a declaration. -/
def declares (kind : TokenKind) : Prop := kind = .keyword .define ∨ kind = .keyword .mutable

theorem loopInit_eq_assignment {ending : Span} {budget : Nat} (h : Apart declares tokens) :
    loopInit ending budget tokens = assignment ending budget tokens := by
  unfold loopInit
  split
  · exact (apart_cons.1 h (.inl rfl)).elim
  · exact (apart_cons.1 h (.inr rfl)).elim
  · rfl

theorem tracks_loopInit (hlength : tokens.length ≤ setting.budget + 1) :
    Tracks (fun other ↦ other.budget + 1) (fun setting ↦ loopInit setting.ending setting.budget)
      Binding setting tokens := by
  by_cases hdeclares : Apart declares tokens
  · have hassignment := (tracks_binding .assign hlength).mono fun _ _ ↦ Binding.assign
    exact hassignment.congr (loopInit_eq_assignment hdeclares) fun _ _ hfront _ ↦
      loopInit_eq_assignment (hfront.apart hdeclares)
  · obtain ⟨⟨_, span⟩, rest, rfl, rfl | rfl⟩ := exists_cons_of_not_apart hdeclares
    · rw [List.length_cons] at hlength
      have hrest : rest.length ≤ setting.budget + 1 := by omega
      have hdeclaration := (tracks_declaration hrest).mono fun _ _ ↦ Binding.define
      exact hdeclaration.cons (fun _ ↦ Nat.le_succ _) rfl fun _ _ _ _ ↦ rfl
    · rw [List.length_cons] at hlength
      have hrest : rest.length ≤ setting.budget + 1 := by omega
      have hbinding := (tracks_binding (fun name value ↦ .declare name value true) hrest).mono
        fun _ _ ↦ Binding.mutable
      exact hbinding.cons (fun _ ↦ Nat.le_succ _) rfl fun _ _ _ _ ↦ rfl

/-! ## Loop updates -/

theorem loopUpdate_eq_of_apart {ending : Span} {budget : Nat}
    (h : Apart (fun kind ↦ kind.isIdentifier = true) tokens) :
    loopUpdate ending budget tokens = expression ending budget tokens := by
  unfold loopUpdate
  split
  · exact (apart_cons.1 h rfl).elim
  · exact (apart_cons.1 h rfl).elim
  · rfl

theorem expression_identifier {ending : Span} {budget : Nat} {kind : TokenKind} {name : String}
    (h : kind.identifier? = some name) (span : Span) (rest : List Token) (hbudget : 0 < budget) :
    expression ending budget (⟨kind, span⟩ :: rest) =
      climb (expressionFrom ending (budget - 1)) 0 (budget - 1) (.identifier name) rest := by
  unfold expression
  rw [expressionFrom_of_pos hbudget]
  cases kind <;> cases h <;> rfl

theorem tracks_loopUpdate (hlength : tokens.length ≤ setting.budget) :
    Tracks Setting.budget (fun setting ↦ loopUpdate setting.ending setting.budget) Update setting
      tokens := by
  by_cases hidentifier : Apart (fun kind ↦ kind.isIdentifier = true) tokens
  · have hexpression := (tracks_expression hlength).mono fun _ _ ↦ Update.expression
    exact hexpression.congr (loopUpdate_eq_of_apart hidentifier) fun _ _ hfront _ ↦
      loopUpdate_eq_of_apart (hfront.apart hidentifier)
  obtain ⟨⟨kind, first⟩, rest, rfl, hname⟩ := exists_cons_of_not_apart hidentifier
  obtain ⟨name, hname⟩ := Option.isSome_iff_exists.1 hname
  rw [List.length_cons] at hlength
  by_cases hassign : Apart (· = .assign) rest
  -- The name is taken before the next token decides: what is left is the loop behind an operand.
  · have hatom : Operand [kind] (.identifier name) := .atom (.identifier hname)
    have hlevel : Grammar.Level (0 + 5) [kind] (.identifier name) := hatom
    have hclimb : Tracks (fun other ↦ min (other.budget - 1) (other.budget - 1))
        (fun setting ↦ climb (expressionFrom setting.ending (setting.budget - 1)) 0
          (setting.budget - 1) (.identifier name))
        (fun kinds node ↦ Comparison ([kind] ++ kinds) node) setting rest :=
      tracks_climb (expressionFrom_sound setting.ending (setting.budget - 1))
        (fun least others hshorter ↦ tracks_operand least (by omega)) (by omega) (by omega) hlevel
        (Nat.zero_le _) (apart_outranks_five 0 rest)
    have hloop : ∀ (other : Setting) tail, Apart (· = .assign) tail → 0 < other.budget →
        loopUpdate other.ending other.budget (⟨kind, first⟩ :: tail) =
          climb (expressionFrom other.ending (other.budget - 1)) 0 (other.budget - 1)
            (.identifier name) tail := by
      intro other tail htail hbudget
      have hupdate : loopUpdate other.ending other.budget (⟨kind, first⟩ :: tail) =
          expression other.ending other.budget (⟨kind, first⟩ :: tail) :=
        loopUpdate_eq_expression htail
      exact hupdate.trans (expression_identifier hname first tail hbudget)
    refine (hclimb.mono fun _ _ ↦ Update.expression).cons (fun other ↦ by omega)
      (hloop setting rest hassign (by omega)) fun other tail hfront htail ↦ ?_
    exact hloop other tail (hfront.apart hassign) (by omega)
  · obtain ⟨⟨_, second⟩, others, rfl, rfl⟩ := exists_cons_of_not_apart hassign
    rw [List.length_cons] at hlength
    have hvalue : Tracks Setting.budget
        (fun setting ↦ expression setting.ending setting.budget) Comparison setting others :=
      tracks_expression (by omega)
    have hassignment : Tracks Setting.budget
        (fun setting rest ↦ loopUpdate setting.ending setting.budget (⟨kind, first⟩ :: rest))
        (fun kinds node ↦ Update (kind :: kinds) node) setting (⟨.assign, second⟩ :: others) :=
      (hvalue.map (Node.assign name) fun _ _ ↦ Update.assign hname).cons (fun _ ↦ Nat.le_succ _)
        (loopUpdate_assign hname first second others)
        fun _ tail _ _ ↦ loopUpdate_assign hname first second tail
    exact hassignment.cons (fun _ ↦ Nat.le_succ _) rfl fun _ _ _ _ ↦ rfl

/-! ## Output and returned values -/

theorem payload_eq_expression {ending : Span} {newline : Bool} {budget : Nat}
    (h : Apart (· = .quote) tokens) :
    payload ending newline budget tokens =
      expression ending budget tokens >>= fun (value, rest) ↦
        .ok (.write newline none (some value), rest) := by
  unfold payload
  split
  · exact (apart_cons.1 h rfl).elim
  · rfl

theorem tracks_payload (newline : Bool) (hlength : tokens.length ≤ setting.budget) :
    Tracks Setting.budget (fun setting ↦ payload setting.ending newline setting.budget)
      (Payload newline) setting tokens := by
  by_cases hquote : Apart (· = .quote) tokens
  · have hvalue : ∀ kinds value, Started (· = .quote) kinds value →
        Payload newline kinds (.write newline none (some value)) :=
      fun _ _ h ↦ .expression h.1 h.2
    exact ((tracks_started (by simp) hquote hlength).map _ hvalue).congr
      (payload_eq_expression hquote) fun _ _ hfront _ ↦
        payload_eq_expression (hfront.apart hquote)
  · obtain ⟨⟨_, span⟩, rest, rfl, rfl⟩ := exists_cons_of_not_apart hquote
    have htext : ∀ kinds text, Quoted kinds text →
        Payload newline kinds (.write newline (some text) none) := fun _ _ ↦ .text
    exact (tracks_stringLiteral.map _ htext).congr_cons fun _ _ ↦ rfl

theorem tracks_write (newline : Bool) (hlength : tokens.length ≤ setting.budget) :
    Tracks Setting.budget (fun setting ↦ write setting.ending newline setting.budget)
      (Written newline) setting tokens := by
  have htext : Payload newline [.quote, .content "", .quote] (.write newline (some "") none) :=
    .text (.quoted "")
  refine tracks_expect (fun _ ↦ Nat.le_succ _) ⟨_, _, .written htext⟩ fun rest hshorter ↦ ?_
  refine (tracks_payload newline (by omega)).then (fun kinds node h ↦ ⟨_, _, .written h⟩)
    fun used node rest h _ ↦ ?_
  refine tracks_expect (fun _ ↦ Nat.le_succ _) ⟨[.semicolon], node, .written h⟩ fun _ _ ↦ ?_
  refine tracks_expect (fun _ ↦ Nat.le_succ _) ⟨[], node, ?_⟩ fun _ _ ↦ tracks_pure ?_
  · simpa using Written.written h
  · simpa using Written.written h

theorem tracks_ret (hlength : tokens.length ≤ setting.budget) :
    Tracks Setting.budget (fun setting ↦ ret setting.ending setting.budget) Returned setting
      tokens := by
  refine (tracks_expression hlength).then (fun kinds value h ↦ ⟨_, _, .returned h⟩)
    fun used value rest h _ ↦ ?_
  exact tracks_expect (fun _ ↦ Nat.le_succ _) ⟨[], _, .returned h⟩ fun _ _ ↦
    tracks_pure (.returned h)

end Scriptlet.Viable
