import ItemSchema.Json.Parser
import ItemSchema.Proofs.Json.Depth
import ItemSchema.Proofs.Json.Token

/-! Parsing printed trees. The tokens of a tree settle it in the innermost container that is open,
so the text of a tree within the limit is parsed as that tree. -/
namespace ItemSchema.Json

/-- Parsing goes on after a step. -/
def resume : Step → List Token → Json × List Token
  | .more stack place, behind => build stack place behind
  | .done tree, behind => (tree, behind)

theorem build_cons (stack : List Frame) (place : Place) (t : Token) (behind : List Token) :
    build stack place (t :: behind) = resume (next stack place t) behind := by
  rw [build]
  cases next stack place t <;> rfl

/-- A value may come next. -/
inductive Place.AwaitsValue : Place → Prop where
  | value : Place.AwaitsValue .value
  | firstItem : Place.AwaitsValue .firstItem

theorem next_eq_of_beginValue? (awaits : Place.AwaitsValue place)
    (begins : beginValue? stack t = some step) : next stack place t = step := by
  cases awaits with
  | value => rw [next, begins, Option.getD_some]
  | firstItem =>
    have notEnd : endContainer? stack t = none := by
      unfold endContainer?
      split
      · cases begins
      · cases begins
      · rfl
    simp only [next, notEnd, begins, Option.orElse_eq_orElse, Option.orElse_none, Option.getD_some]

/-- The tokens put a tree into the innermost open container. -/
def Settles (ts : List Token) (j : Json) : Prop :=
  ∀ stack place behind, Place.AwaitsValue place →
    build stack place (ts ++ behind) = resume (settle j stack) behind

theorem settles_leaf (begins : ∀ stack, beginValue? stack t = some (settle j stack)) :
    Settles [t] j := by
  intro stack place behind awaits
  rw [List.singleton_append, build_cons, next_eq_of_beginValue? awaits (begins stack)]

/-- The frame holds the items before; what is still to come may start with any of them. -/
theorem build_items (each : ∀ later ∈ item :: rest, Settles later.tokens later)
    (awaits : Place.AwaitsValue place) (before : List Json) (stack : List Frame) (behind : List Token) :
    build (.array before :: stack) place
        (Token.separated (itemTokens (item :: rest)) ++ .closeArray :: behind) =
      resume (settle (.array (before.reverse ++ item :: rest)) stack) behind := by
  induction rest generalizing item place before with
  | nil =>
    have here := each item List.mem_cons_self
    rw [itemTokens, itemTokens, Token.separated, here _ _ _ awaits, settle, resume, build_cons]
    simp [next, endContainer?]
  | cons following rest ih =>
    obtain ⟨here, later⟩ := List.forall_mem_cons.mp each
    have split : Token.separated (itemTokens (item :: following :: rest)) =
      item.tokens ++ .comma :: Token.separated (itemTokens (following :: rest)) := rfl
    rw [split, List.append_assoc, here _ _ _ awaits, settle, resume, List.cons_append, build_cons]
    have onwards : next (.array (item :: before) :: stack) .separator .comma =
      .more (.array (item :: before) :: stack) .value := rfl
    rw [onwards, resume, ih later .value]
    simp

theorem settles_array (each : ∀ item ∈ items, Settles item.tokens item) :
    Settles (tokens (.array items)) (.array items) := by
  intro stack place behind awaits
  have opened : beginValue? stack .openArray = some (.more (.array [] :: stack) .firstItem) := rfl
  rw [tokens, List.cons_append, List.cons_append, build_cons, next_eq_of_beginValue? awaits opened,
    resume, List.append_assoc, List.singleton_append]
  cases items with
  | nil =>
    rw [itemTokens, Token.separated, List.nil_append, build_cons]
    rfl
  | cons item rest => exact build_items each .firstItem [] stack behind

/-- A key may come next. -/
inductive Place.AwaitsKey : Place → Prop where
  | firstKey : Place.AwaitsKey .firstKey
  | key : Place.AwaitsKey .key

theorem next_key (awaits : Place.AwaitsKey place) (before : List (String × Json)) (old key : String)
    (stack : List Frame) :
    next (.object before old false :: stack) place (.string key) =
      .more (.object before key false :: stack) .colon := by
  cases awaits <;> rfl

theorem build_member (settles : Settles ts value) (awaits : Place.AwaitsKey place)
    (before : List (String × Json)) (old key : String) (stack : List Frame) (behind : List Token) :
    build (.object before old false :: stack) place (.string key :: .colon :: ts ++ behind) =
      build (.object ((key, value) :: before) key false :: stack) .separator behind := by
  have onwards : next (.object before key false :: stack) .colon .colon =
    .more (.object before key false :: stack) .value := rfl
  rw [List.cons_append, List.cons_append, build_cons, next_key awaits, resume, build_cons, onwards,
    resume, settles _ _ _ .value, settle, resume]
  rfl

theorem build_members
    (each : ∀ later ∈ member :: rest, Settles (tokens (Prod.snd later)) later.2)
    (awaits : Place.AwaitsKey place) (before : List (String × Json)) (old : String)
    (stack : List Frame) (behind : List Token) :
    build (.object before old false :: stack) place
        (Token.separated (memberTokens (member :: rest)) ++ .closeObject :: behind) =
      resume (settle (.object (before.reverse ++ member :: rest) none) stack) behind := by
  induction rest generalizing member place before old with
  | nil =>
    have here := each member List.mem_cons_self
    rw [memberTokens, memberTokens, Token.separated, build_member here awaits, build_cons]
    simp [next, endContainer?]
  | cons following rest ih =>
    obtain ⟨here, later⟩ := List.forall_mem_cons.mp each
    have split : Token.separated (memberTokens (member :: following :: rest)) =
      (.string member.1 :: .colon :: tokens member.2) ++
        .comma :: Token.separated (memberTokens (following :: rest)) := rfl
    have onwards : next (.object (member :: before) member.1 false :: stack) .separator .comma =
      .more (.object (member :: before) member.1 false :: stack) .key := rfl
    rw [split, List.append_assoc, build_member here awaits, List.cons_append, build_cons, onwards,
      resume, ih later .key]
    simp

theorem settles_object (each : ∀ member ∈ members, Settles (tokens (Prod.snd member)) member.2) :
    Settles (tokens (.object members none)) (.object members none) := by
  intro stack place behind awaits
  have opened : beginValue? stack .openObject =
    some (.more (.object [] "" false :: stack) .firstKey) := rfl
  rw [tokens, List.cons_append, List.cons_append, build_cons, next_eq_of_beginValue? awaits opened,
    resume, List.append_assoc, List.singleton_append]
  cases members with
  | nil =>
    rw [memberTokens, Token.separated, List.nil_append, build_cons]
    rfl
  | cons member rest => exact build_members each .firstKey [] "" stack behind

theorem settles_tokens (textual : Textual j) : Settles j.tokens j := by
  induction textual with
  | null | bool | string => exact settles_leaf fun _ => rfl
  | array _ ih => exact settles_array ih
  | object _ ih => exact settles_object ih

theorem Textual.intact (textual : Textual j) : j.intact = true := by
  induction textual with
  | null | bool | string => rfl
  | array _ ih => exact (intact_array _).mpr ih
  | object _ ih => exact (intact_object _ _).mpr ⟨ih, rfl⟩

/-- The text is a tree and nothing else, however deep the tree is. -/
def Denotes (text : String) (j : Json) : Prop :=
  build [] .value (Token.ofText text) = (j, [])

theorem print_denotes (textual : Textual j) : Denotes j.print j := by
  have settled := settles_tokens textual [] .value [] .value
  rw [List.append_nil] at settled
  rw [Denotes, (spells_print textual).ofText_eq, settled]
  rfl

theorem Denotes.parse_eq (denotes : Denotes text j) (within : j.depth ≤ maxDepth) :
    parse text = ⟨j, false⟩ := by
  rw [parse, denotes]
  exact congrArg (Document.mk · false) (limit_of_depth_le within)

end ItemSchema.Json
