import FolkAround.ComputerUse.Register
import FolkAround.JsonSchema

/-!
# Schemas and checks of the semantic tools

The arguments of `folk_click` and `folk_set_value` are described twice: by the schema
the client is given, and by `ensureSemanticArgs`, which looks at bytes.

* `Carries`, `Closed` — a member is there and is a string with some property; no other
  members are there.
* `ensureSemanticArgs_eq_pure_iff`, `valid_strictSchema_iff` — what each of the two asks
  for, member by member.
* `operationId_agrees` and its like — the two agree on a member.
* `advertisedSchema` — the schema in the answer to `tools/list`.
* `schema_agrees_iff` — the two agree on everything but long values.
-/

namespace FolkAround
namespace ComputerUse

open JsonSchema Patterns
open Mcp (Tool ToolTable listResult objectSchema)

/-! ## The check, member by member -/

/-- The member is a string with the property. -/
def Carries (args : Value) (key : String) (P : String → Prop) : Prop :=
  ∃ s, args.get key = some (.string s) ∧ P s

/-- An object with no members but these. -/
def Closed (args : Value) (keys : List String) : Prop :=
  (∃ members, args = .object members) ∧ ∀ key x, args.get key = some x → key ∈ keys

section

variable {α β : Type} {args : Value} {key : String}

theorem throw_ne_pure (err : ToolExecError) (a : α) : (throw err : Exec α) ≠ pure a := by
  intro h
  have hrun : (Effects.Prog.pure (.error err, []) : Effects.Prog Effect Answer (Except _ α × _)) =
      .pure (.ok a, []) := congrFun h []
  cases hrun

theorem orFail_bind_eq_pure_iff {err : ToolExecError} {o : Option α} {f : α → Exec β} {b : β} :
    (orFail err o >>= f) = pure b ↔ ∃ a, o = some a ∧ f a = pure b := by
  cases o with
  | none =>
      constructor
      · intro h
        exact absurd h (throw_ne_pure err b)
      · rintro ⟨a, ha, -⟩
        exact absurd ha (by simp)
  | some a =>
      constructor
      · intro h
        exact ⟨a, rfl, h⟩
      · rintro ⟨a', ha, h⟩
        cases Option.some.inj ha
        exact h

theorem strArg_eq_some_iff {s : String} :
    strArg args key = some s ↔ args.get key = some (.string s) := by
  rw [strArg, Option.bind_eq_some_iff]
  constructor
  · rintro ⟨x, hx, hs⟩
    rw [hx, Value.asStr_eq_some_iff.1 hs]
  · intro h
    exact ⟨_, h, rfl⟩

theorem any_strArg_iff {p : String → Bool} :
    (strArg args key).any p = true ↔ Carries args key fun s => p s = true := by
  constructor
  · intro h
    cases harg : strArg args key with
    | none =>
        rw [harg] at h
        exact absurd h (by simp)
    | some s =>
        rw [harg] at h
        exact ⟨s, strArg_eq_some_iff.1 harg, h⟩
  · rintro ⟨s, hs, hp⟩
    rw [strArg_eq_some_iff.2 hs]
    exact hp

theorem mem_keys_iff {members : List (String × Value)} :
    (∃ member ∈ members, member.1 = key) ↔ ∃ x, members.lookup key = some x := by
  rw [← Option.isSome_iff_exists, List.lookup_isSome_iff]
  constructor
  · rintro ⟨member, hmember, rfl⟩
    exact ⟨member, hmember, beq_self_eq_true _⟩
  · rintro ⟨member, hmember, hkey⟩
    exact ⟨member, hmember, (eq_of_beq hkey).symm⟩

theorem ensureExactArgs_eq_pure_iff {keys : List String} :
    ensureExactArgs args keys = pure () ↔ Closed args keys := by
  have hthrow : ¬ (throw .invalidArguments : Exec Unit) = pure () := throw_ne_pure _ _
  cases args with
  | object members =>
      have hkeys : (members.all fun member => member.1 ∈ keys) = true ↔
          ∀ key x, members.lookup key = some x → key ∈ keys := by
        rw [List.all_eq_true]
        constructor
        · intro h key x hx
          obtain ⟨member, hmember, rfl⟩ := mem_keys_iff.2 ⟨x, hx⟩
          exact of_decide_eq_true (h member hmember)
        · intro h member hmember
          obtain ⟨x, hx⟩ := mem_keys_iff.1 ⟨member, hmember, rfl⟩
          exact decide_eq_true (h member.1 x hx)
      rw [ensureExactArgs, Closed]
      split
      · rename_i hall
        exact iff_of_true rfl ⟨⟨members, rfl⟩, hkeys.1 hall⟩
      · rename_i hall
        refine iff_of_false hthrow ?_
        rintro ⟨-, hclosed⟩
        exact hall (hkeys.2 hclosed)
  | _ =>
      refine iff_of_false hthrow ?_
      rintro ⟨⟨members, hmembers⟩, -⟩
      cases hmembers

theorem ensureExactArgs_eq_throw {keys : List String} (h : ¬ Closed args keys) :
    ensureExactArgs args keys = throw .invalidArguments := by
  rw [← ensureExactArgs_eq_pure_iff] at h
  cases args with
  | object members =>
      rw [ensureExactArgs] at h ⊢
      split
      · rename_i hall
        rw [if_pos hall] at h
        exact absurd rfl h
      · rfl
  | _ => rfl

/-- **The check, member by member.** -/
theorem ensureSemanticArgs_eq_pure_iff {set : Bool} :
    ensureSemanticArgs args set = pure () ↔
      Closed args (if set then setValueFields else clickFields) ∧
        Carries args "operation_id" (fun s => validOperationId s = true) ∧
        Carries args "observation_id" (fun s => validObservationId s = true) ∧
        Carries args "tag" (fun s => validTag s = true) ∧
        (set = true → Carries args "value" fun s => validValue s = true) ∧
        Carries args "interaction_mode" fun s => validInteractionMode s = true := by
  have hvalue : (!set || (strArg args "value").any validValue) = true ↔
      (set = true → Carries args "value" fun s => validValue s = true) := by
    rw [← any_strArg_iff]
    cases set with
    | true => simp
    | false => simp
  rw [ensureSemanticArgs]
  by_cases hclosed : Closed args (if set then setValueFields else clickFields)
  · have hpure : ∀ f : Unit → Exec Unit, (pure () >>= f) = f () := fun _ => rfl
    rw [ensureExactArgs_eq_pure_iff.2 hclosed, hpure]
    simp only [orFail_bind_eq_pure_iff, ite_eq_left_iff]
    simp only [throw_ne_pure, imp_false, not_not, Bool.and_eq_true, hvalue, any_strArg_iff,
      strArg_eq_some_iff]
    constructor
    · rintro ⟨operationId, hop, observationId, hobs, tag, htag, ⟨⟨⟨hop', hobs'⟩, htag'⟩, hval⟩, hmode⟩
      exact ⟨hclosed, ⟨_, hop, hop'⟩, ⟨_, hobs, hobs'⟩, ⟨_, htag, htag'⟩, hval, hmode⟩
    · rintro ⟨-, ⟨_, hop, hop'⟩, ⟨_, hobs, hobs'⟩, ⟨_, htag, htag'⟩, hval, hmode⟩
      exact ⟨_, hop, _, hobs, _, htag, ⟨⟨⟨hop', hobs'⟩, htag'⟩, hval⟩, hmode⟩
  · rw [ensureExactArgs_eq_throw hclosed]
    refine iff_of_false ?_ fun h => hclosed h.1
    exact throw_ne_pure _ _

end

/-! ## The schema, member by member -/

/-- A string with bounds and a pattern. -/
theorem valid_constrainedStringProperty_iff {description text : String} {min max : UInt64}
    {p : Pattern} (hp : Pattern.parse text.toList = some p) {v : Value} :
    Valid (constrainedStringProperty description min max text) v ↔
      ∃ s, v = .string s ∧ min.toNat ≤ s.toList.length ∧ s.toList.length ≤ max.toNat ∧
        p.Matches s.toList := by
  rw [constrainedStringProperty, valid_object_iff]
  simp only [List.forall_mem_cons, validKeyword_type, validKeyword_description,
    validKeyword_minLength, validKeyword_maxLength, validKeyword_pattern hp, true_and]
  constructor
  · rintro ⟨⟨s, rfl⟩, hmin, hmax, hmatches, -⟩
    exact ⟨s, rfl, hmin s rfl, hmax s rfl, hmatches s rfl⟩
  · rintro ⟨s, rfl, hmin, hmax, hmatches⟩
    have hsame : ∀ t, Value.string s = .string t → s = t := fun _ => Value.string.inj
    refine ⟨⟨s, rfl⟩, ?_, ?_, ?_, by simp⟩
    · intro t ht
      rw [← hsame t ht]
      exact hmin
    · intro t ht
      rw [← hsame t ht]
      exact hmax
    · intro t ht
      rw [← hsame t ht]
      exact hmatches

theorem valid_interactionModeProperty_iff {v : Value} :
    Valid interactionModeProperty v ↔ ∃ s, v = .string s ∧ validInteractionMode s = true := by
  rw [interactionModeProperty, valid_object_iff]
  simp only [List.forall_mem_cons, validKeyword_type, validKeyword_description,
    validKeyword_enum, true_and]
  constructor
  · rintro ⟨⟨s, rfl⟩, hmember, -⟩
    refine ⟨s, rfl, ?_⟩
    simpa [validInteractionMode] using hmember
  · rintro ⟨s, rfl, hmode⟩
    refine ⟨⟨s, rfl⟩, ?_, by simp⟩
    simpa [validInteractionMode] using hmode

/-- **The schema, member by member**, when all members are required. -/
theorem valid_strictSchema_iff {fields : List (String × Value)} (hfields : fields ≠ [])
    {args : Value} :
    Valid (strictSchema fields (fields.map Prod.fst)) args ↔
      Closed args (fields.map Prod.fst) ∧
        ∀ field ∈ fields, ∃ x, args.get field.1 = some x ∧ Valid field.2 x := by
  have hrequired : fields.map Prod.fst ≠ [] := by simpa using hfields
  rw [strictSchema, objectSchema, if_neg hrequired, valid_object_iff]
  simp only [List.cons_append, List.nil_append, List.forall_mem_cons, validKeyword_type,
    validKeyword_properties, validKeyword_closed]
  constructor
  · rintro ⟨⟨members, rfl⟩, hproperties, hnames, hclosed, -⟩
    refine ⟨⟨⟨members, rfl⟩, hclosed⟩, fun field hfield => ?_⟩
    obtain ⟨x, hx⟩ := Option.ne_none_iff_exists'.1
      (validKeyword_required.1 hnames field.1 (List.mem_map_of_mem hfield))
    exact ⟨x, hx, hproperties field hfield x hx⟩
  · rintro ⟨⟨⟨members, rfl⟩, hclosed⟩, hall⟩
    refine ⟨⟨members, rfl⟩, fun field hfield x hx => ?_, ?_, hclosed, by simp⟩
    · obtain ⟨x', hx', hvalid⟩ := hall field hfield
      rwa [Option.some.inj (hx.symm.trans hx')]
    · rw [validKeyword_required]
      intro name hname
      obtain ⟨field, hfield, rfl⟩ := List.mem_map.1 hname
      obtain ⟨x, hx, -⟩ := hall field hfield
      exact Option.ne_none_iff_exists'.2 ⟨x, hx⟩

/-! ## Characters and bytes -/

/-- The set and the condition on bytes say the same of ASCII characters, and let no
others in. -/
structure Agree (term : Term) (p : UInt8 → Bool) : Prop where
  ascii : term.set.all SetItem.ascii = true
  low : ∀ n < 256, p (UInt8.ofNat n) = true → n < 0x80
  same : ∀ n < 0x80, term.InSet (Char.ofNat n) ↔ p (UInt8.ofNat n) = true

section

variable {term : Term} {p : UInt8 → Bool} {cs : List Char}

theorem Agree.lt (h : Agree term p) {b : UInt8} (hb : p b = true) : b.toNat < 0x80 := by
  apply h.low b.toNat b.toNat_lt
  rw [UInt8.ofNat_toNat]
  exact hb

theorem Agree.forall_iff (h : Agree term p) :
    (∀ c ∈ cs, term.InSet c) ↔ ∀ b ∈ Utf8.encode cs, p b = true := by
  rw [Utf8.forall_encode_iff fun _ => h.lt]
  refine forall_congr' fun c => forall_congr' fun _ => ?_
  have hc : ∀ hlt : c.toNat < 0x80, term.InSet c ↔ p (UInt8.ofNat c.toNat) = true := by
    intro hlt
    rw [← h.same c.toNat hlt, Char.ofNat_toNat]
  constructor
  · intro hset
    have hlt := lt_of_inSet h.ascii hset
    exact ⟨hlt, (hc hlt).1 hset⟩
  · rintro ⟨hlt, hbyte⟩
    exact (hc hlt).2 hbyte

theorem Agree.length (h : Agree term p) (hcs : ∀ c ∈ cs, term.InSet c) :
    (Utf8.encode cs).length = cs.length :=
  Utf8.length_encode_of_ascii fun c hc => lt_of_inSet h.ascii (hcs c hc)

theorem Agree.mem_language_iff (h : Agree term p) :
    cs ∈ term.language ↔ (∀ b ∈ Utf8.encode cs, p b = true) ∧
      term.min ≤ (Utf8.encode cs).length ∧ ∀ n ∈ term.max, (Utf8.encode cs).length ≤ n := by
  rw [Patterns.mem_language_iff, ← h.forall_iff]
  refine and_congr_right fun hset => ?_
  rw [h.length hset]

/-- A text of such characters with bounds, and its bytes. -/
theorem Agree.matches_iff (h : Agree term p) {min max : Nat} :
    (min ≤ cs.length ∧ cs.length ≤ max ∧ (Pattern.mk [term] true true).Matches cs) ↔
      (∀ b ∈ Utf8.encode cs, p b = true) ∧
        (min ≤ (Utf8.encode cs).length ∧ (Utf8.encode cs).length ≤ max) ∧
        term.min ≤ (Utf8.encode cs).length ∧ ∀ n ∈ term.max, (Utf8.encode cs).length ≤ n := by
  rw [matches_whole_iff, mem_prod_singleton, h.mem_language_iff]
  constructor
  · rintro ⟨hlow, hhigh, hall, hbounds⟩
    rw [← h.length (h.forall_iff.2 hall)] at hlow hhigh
    exact ⟨hall, ⟨hlow, hhigh⟩, hbounds⟩
  · rintro ⟨hall, ⟨hlow, hhigh⟩, hbounds⟩
    rw [h.length (h.forall_iff.2 hall)] at hlow hhigh
    exact ⟨hlow, hhigh, hall, hbounds⟩

end

/-! ## The two agree on a member -/

def operationIdTerm : Term :=
  ⟨[.range 'A' 'Z', .range 'a' 'z', .range '0' '9', .range '_' '_', .range ':' ':',
    .range '-' '-'], 1, none⟩

theorem agree_operationId : Agree operationIdTerm isOperationIdByte :=
  ⟨by decide, by decide +kernel, by decide +kernel⟩

theorem operationId_agrees {v : Value} :
    Valid operationIdProperty v ↔ ∃ s, v = .string s ∧ validOperationId s = true := by
  have hparse : Pattern.parse "^[A-Za-z0-9_:-]+$".toList = some ⟨[operationIdTerm], true, true⟩ := by
    decide +kernel
  rw [operationIdProperty, valid_constrainedStringProperty_iff hparse]
  refine exists_congr fun s => and_congr_right fun _ => ?_
  refine agree_operationId.matches_iff.trans ?_
  have hempty : 1 ≤ (bytesOf s).length ↔ s ≠ "" := by
    rw [Nat.one_le_iff_ne_zero, Ne, List.length_eq_zero_iff, bytesOf, Utf8.encode_eq_nil_iff,
      String.toList_eq_nil_iff]
  simp only [validOperationId, Bool.and_eq_true, decide_eq_true_eq, List.all_eq_true, ← hempty]
  constructor
  · rintro ⟨hall, ⟨hlow, hhigh⟩, -⟩
    exact ⟨⟨hlow, hhigh⟩, hall⟩
  · rintro ⟨⟨hlow, hhigh⟩, hall⟩
    exact ⟨hall, ⟨hlow, hhigh⟩, hlow, by simp [operationIdTerm]⟩

def observationIdTerm : Term := ⟨[.range '0' '9', .range 'a' 'f'], 64, some 64⟩

theorem agree_observationId : Agree observationIdTerm isLowerHexByte :=
  ⟨by decide, by decide +kernel, by decide +kernel⟩

theorem observationId_agrees {v : Value} :
    Valid observationIdProperty v ↔ ∃ s, v = .string s ∧ validObservationId s = true := by
  have hparse : Pattern.parse "^[0-9a-f]\x7b64\x7d$".toList =
      some ⟨[observationIdTerm], true, true⟩ := by decide +kernel
  rw [observationIdProperty, valid_constrainedStringProperty_iff hparse]
  refine exists_congr fun s => and_congr_right fun _ => ?_
  refine agree_observationId.matches_iff.trans ?_
  simp only [validObservationId, Bool.and_eq_true, beq_iff_eq, List.all_eq_true]
  constructor
  · rintro ⟨hall, ⟨hlow, hhigh⟩, -⟩
    exact ⟨Nat.le_antisymm hhigh hlow, hall⟩
  · rintro ⟨hlen, hall⟩
    refine ⟨hall, ⟨hlen.ge, hlen.le⟩, hlen.ge, ?_⟩
    rintro n ⟨⟩
    exact hlen.le

def tagIndexTerm : Term := ⟨[.range '0' '9'], 1, some 4⟩

theorem agree_tagIndex : Agree tagIndexTerm isDigitByte :=
  ⟨by decide, by decide +kernel, by decide +kernel⟩

theorem tag_agrees {v : Value} :
    Valid tagProperty v ↔ ∃ s, v = .string s ∧ validTag s = true := by
  have hparse : Pattern.parse "^e[0-9]\x7b1,4\x7d$".toList =
      some ⟨[⟨[.range 'e' 'e'], 1, some 1⟩, tagIndexTerm], true, true⟩ := by decide +kernel
  rw [tagProperty, valid_constrainedStringProperty_iff hparse]
  refine exists_congr fun s => and_congr_right fun _ => ?_
  rw [matches_whole_iff, mem_prod_char]
  have hindex : ∀ index, index ∈ tagIndexTerm.language ↔
      (∀ b ∈ Utf8.encode index, isDigitByte b = true) ∧ 1 ≤ (Utf8.encode index).length ∧
        (Utf8.encode index).length ≤ 4 := by
    intro index
    rw [agree_tagIndex.mem_language_iff]
    simp [tagIndexTerm]
  rw [validTag]
  cases hs : s.toList with
  | nil => simp
  | cons c index =>
      by_cases hc : c = 'e'
      · subst hc
        have hempty : index ≠ [] ↔ 1 ≤ (Utf8.encode index).length := by
          rw [Nat.one_le_iff_ne_zero, Ne, Ne, List.length_eq_zero_iff, Utf8.encode_eq_nil_iff]
        simp only [Bool.and_eq_true, decide_eq_true_eq, List.all_eq_true, hempty]
        constructor
        · rintro ⟨-, -, _, _, hsplit, -, hlanguage⟩
          obtain ⟨-, rfl⟩ := List.cons.inj hsplit
          obtain ⟨hall, hlow, hhigh⟩ := (hindex index).1 hlanguage
          exact ⟨⟨hlow, hhigh⟩, hall⟩
        · rintro ⟨⟨hlow, hhigh⟩, hall⟩
          have hlen := agree_tagIndex.length (agree_tagIndex.forall_iff.2 hall)
          rw [List.length_cons, ← hlen]
          refine ⟨Nat.succ_le_succ hlow, Nat.succ_le_succ hhigh, _, _, rfl, inSet_char.2 rfl, ?_⟩
          exact (hindex index).2 ⟨hall, hlow, hhigh⟩
      · refine iff_of_false ?_ ?_
        · rintro ⟨-, -, _, _, hsplit, hset, -⟩
          obtain ⟨rfl, -⟩ := List.cons.inj hsplit
          exact hc (inSet_char.1 hset)
        · simp [hc]

/-- A value for an element: only its length is bounded, in characters. -/
theorem value_valid_iff {v : Value} :
    Valid (constrainedStringProperty "Value to set" 0 (16 * 1024) "^[\\s\\S]*$") v ↔
      ∃ s, v = .string s ∧ s.toList.length ≤ 16 * 1024 := by
  have hparse : Pattern.parse "^[\\s\\S]*$".toList =
      some ⟨[⟨[.space, .notSpace], 0, none⟩], true, true⟩ := by decide +kernel
  rw [valid_constrainedStringProperty_iff hparse]
  refine exists_congr fun s => and_congr_right fun _ => ?_
  rw [matches_whole_iff, mem_prod_singleton, mem_language_iff]
  constructor
  · rintro ⟨-, hmax, -⟩
    exact hmax
  · intro hmax
    refine ⟨Nat.zero_le _, hmax, ?_, Nat.zero_le _, by simp⟩
    exact fun c _ => inSet_of_any (by simp) (by simp) c

/-! ## What the client is told -/

/-- The schema of a tool in the answer to `tools/list`. -/
def advertisedSchema (table : ToolTable Host) (name : String) : Option Value := do
  let tools ← ((listResult table).get "tools").bind Value.asArray
  let tool ← tools.find? fun tool => (tool.get "name").bind Value.asStr = some name
  tool.get "inputSchema"

theorem advertisedSchema_eq_some {table : ToolTable Host} {name : String} {schema : Value}
    (h : advertisedSchema table name = some schema) :
    ∃ tool ∈ table.tools, tool.name = name ∧ tool.inputSchema = schema := by
  have hfind : ((table.tools.map fun tool => Value.object [("name", .string tool.name),
      ("description", .string tool.description), ("inputSchema", tool.inputSchema)]).find?
        fun tool => (tool.get "name").bind Value.asStr = some name).bind (Value.get · "inputSchema") =
      some schema := h
  obtain ⟨value, hvalue, hschema⟩ := Option.bind_eq_some_iff.1 hfind
  obtain ⟨tool, htool, rfl⟩ := List.mem_map.1 (List.mem_of_find?_eq_some hvalue)
  have hnamed := List.find?_some
    (p := fun tool : Value => decide ((tool.get "name").bind Value.asStr = some name)) hvalue
  have hname : some tool.name = some name := of_decide_eq_true hnamed
  exact ⟨tool, htool, Option.some.inj hname, Option.some.inj hschema⟩

def clickSchema : Value :=
  strictSchema
    [("operation_id", operationIdProperty), ("observation_id", observationIdProperty),
      ("tag", tagProperty), ("interaction_mode", interactionModeProperty)]
    clickFields

def setValueSchema : Value :=
  strictSchema
    [("operation_id", operationIdProperty), ("observation_id", observationIdProperty),
      ("tag", tagProperty),
      ("value", constrainedStringProperty "Value to set" 0 (16 * 1024) "^[\\s\\S]*$"),
      ("interaction_mode", interactionModeProperty)]
    setValueFields

theorem allTools_schema (env : Externals) : ∀ tool ∈ allTools env,
    (tool.name = "folk_click" → tool.inputSchema = clickSchema) ∧
      (tool.name = "folk_set_value" → tool.inputSchema = setValueSchema) := by
  simp only [allTools, hostTools, semanticTools, inputTools, desktopTools, List.forall_mem_append,
    List.forall_mem_cons, tool]
  simp [clickSchema, setValueSchema, clickFields, setValueFields]

theorem carries_congr {args : Value} {key : String} {schema : Value} {P : String → Prop}
    (h : ∀ v, Valid schema v ↔ ∃ s, v = .string s ∧ P s) :
    (∃ x, args.get key = some x ∧ Valid schema x) ↔ Carries args key P := by
  constructor
  · rintro ⟨x, hx, hvalid⟩
    obtain ⟨s, rfl, hs⟩ := (h x).1 hvalid
    exact ⟨s, hx, hs⟩
  · rintro ⟨s, hs, hp⟩
    exact ⟨.string s, hs, (h _).2 ⟨s, rfl, hp⟩⟩

/-- What the schema of `folk_click` asks for is what the check asks for. -/
theorem valid_clickSchema_iff {args : Value} :
    Valid clickSchema args ↔ ensureSemanticArgs args false = pure () := by
  refine (valid_strictSchema_iff (by simp)).trans ?_
  rw [ensureSemanticArgs_eq_pure_iff]
  simp only [List.forall_mem_cons, carries_congr fun _ => operationId_agrees,
    carries_congr fun _ => observationId_agrees, carries_congr fun _ => tag_agrees,
    carries_congr fun _ => valid_interactionModeProperty_iff]
  simp [clickFields]

theorem valid_setValueSchema_iff {args : Value} :
    Valid setValueSchema args ↔
      Closed args setValueFields ∧
        Carries args "operation_id" (fun s => validOperationId s = true) ∧
        Carries args "observation_id" (fun s => validObservationId s = true) ∧
        Carries args "tag" (fun s => validTag s = true) ∧
        Carries args "value" (fun s => s.toList.length ≤ 16 * 1024) ∧
        Carries args "interaction_mode" fun s => validInteractionMode s = true := by
  refine (valid_strictSchema_iff (by simp)).trans ?_
  simp only [List.forall_mem_cons, carries_congr fun _ => operationId_agrees,
    carries_congr fun _ => observationId_agrees, carries_congr fun _ => tag_agrees,
    carries_congr fun _ => value_valid_iff,
    carries_congr fun _ => valid_interactionModeProperty_iff]
  simp [setValueFields]

/-- The tool with or without a value. -/
def semanticTool (set : Bool) : String := if set then "folk_set_value" else "folk_click"

theorem advertisedSchema_semantic {env : Externals} {mode : AccessMode} {click setValue set : Bool}
    {schema : Value}
    (h : advertisedSchema (registerTools env (ToolTable.new Host mode) click setValue)
      (semanticTool set) = some schema) :
    schema = if set then setValueSchema else clickSchema := by
  obtain ⟨tool, htool, hname, rfl⟩ := advertisedSchema_eq_some h
  obtain ⟨hclick, hset⟩ := allTools_schema env tool (mem_registerTools.1 htool).1
  cases set with
  | true => exact hset hname
  | false => exact hclick hname

/-- **Schema and check agree**, except that the check refuses a value that has too many
bytes for it, and not too many characters for the schema. -/
theorem schema_agrees_iff {env : Externals} {mode : AccessMode} {click setValue : Bool}
    (set : Bool) {schema : Value}
    (h : advertisedSchema (registerTools env (ToolTable.new Host mode) click setValue)
      (semanticTool set) = some schema) (args : Value) :
    (ensureSemanticArgs args set = pure () ↔ Valid schema args) ↔
      (set = true → Valid schema args → ∀ value, strArg args "value" = some value →
        (bytesOf value).length ≤ 16 * 1024) := by
  rw [advertisedSchema_semantic h]
  cases set with
  | false =>
      simp only [Bool.false_eq_true, if_false, false_implies, iff_true]
      exact valid_clickSchema_iff.symm
  | true =>
      simp only [if_true, true_implies]
      rw [ensureSemanticArgs_eq_pure_iff, valid_setValueSchema_iff, if_pos rfl]
      simp only [true_implies, validValue, decide_eq_true_eq, strArg_eq_some_iff]
      constructor
      · rintro hagree hvalid value hvalue
        obtain ⟨-, -, -, -, ⟨s, hs, hlen⟩, -⟩ := hagree.2 hvalid
        rw [Value.string.inj (Option.some.inj (hvalue.symm.trans hs))]
        exact hlen
      · intro hshort
        constructor
        · rintro ⟨hclosed, hop, hobs, htag, ⟨s, hs, hlen⟩, hmode⟩
          exact ⟨hclosed, hop, hobs, htag, ⟨s, hs, (Utf8.length_le_length_encode _).trans hlen⟩, hmode⟩
        · intro hvalid
          have hbytes := hshort hvalid
          obtain ⟨hclosed, hop, hobs, htag, ⟨s, hs, -⟩, hmode⟩ := hvalid
          exact ⟨hclosed, hop, hobs, htag, ⟨s, hs, hbytes s hs⟩, hmode⟩

/-! ## A short value and a long one -/

def setArgs (value : String) : Value :=
  .object [("operation_id", .string "op"),
    ("observation_id", .string (String.ofList (List.replicate 64 'a'))), ("tag", .string "e0"),
    ("value", .string value), ("interaction_mode", .string "interactive")]

section

variable (value : String)

theorem closed_setArgs : Closed (setArgs value) setValueFields :=
  ensureExactArgs_eq_pure_iff.1 rfl

theorem carries_value_iff {P : String → Prop} : Carries (setArgs value) "value" P ↔ P value := by
  constructor
  · rintro ⟨s, hs, hp⟩
    rw [show value = s from Value.string.inj (Option.some.inj hs)]
    exact hp
  · intro hp
    exact ⟨value, rfl, hp⟩

/-- Nothing is wrong with the other members. -/
theorem setArgs_others :
    Carries (setArgs value) "operation_id" (fun s => validOperationId s = true) ∧
      Carries (setArgs value) "observation_id" (fun s => validObservationId s = true) ∧
      Carries (setArgs value) "tag" (fun s => validTag s = true) ∧
      Carries (setArgs value) "interaction_mode" fun s => validInteractionMode s = true :=
  ⟨⟨_, rfl, by decide +kernel⟩, ⟨_, rfl, by decide +kernel⟩, ⟨_, rfl, by decide +kernel⟩,
    ⟨_, rfl, by decide +kernel⟩⟩

theorem ensureSemanticArgs_setArgs_iff :
    ensureSemanticArgs (setArgs value) true = pure () ↔ (bytesOf value).length ≤ 16 * 1024 := by
  obtain ⟨hop, hobs, htag, hmode⟩ := setArgs_others value
  rw [ensureSemanticArgs_eq_pure_iff, if_pos rfl, carries_value_iff]
  simp [closed_setArgs, hop, hobs, htag, hmode, validValue]

theorem valid_setArgs_iff :
    Valid setValueSchema (setArgs value) ↔ value.toList.length ≤ 16 * 1024 := by
  obtain ⟨hop, hobs, htag, hmode⟩ := setArgs_others value
  rw [valid_setValueSchema_iff, carries_value_iff]
  simp [closed_setArgs, hop, hobs, htag, hmode]

end

theorem advertisedSchema_setValue :
    advertisedSchema (registerTools bareHost (ToolTable.new Host .full) true true)
      "folk_set_value" = some setValueSchema := rfl

/-- A short value is accepted, and valid. -/
theorem schema_agrees_short :
    ensureSemanticArgs (setArgs "hello") true = pure () ∧ Valid setValueSchema (setArgs "hello") := by
  have haccepts := (ensureSemanticArgs_setArgs_iff "hello").2 (by decide +kernel)
  have hagree := (schema_agrees_iff true advertisedSchema_setValue (setArgs "hello")).2
    fun _ _ value hvalue => by
      rw [← show "hello" = value from Option.some.inj hvalue]
      decide +kernel
  exact ⟨haccepts, hagree.1 haccepts⟩

/-- So many characters of two bytes each. -/
def wideValue (n : Nat) : String := String.ofList (List.replicate n '\u00e9')

theorem length_wideValue (n : Nat) :
    (wideValue n).toList.length = n ∧ (bytesOf (wideValue n)).length = n * 2 := by
  rw [bytesOf, wideValue, String.toList_ofList, Utf8.length_encode_replicate]
  exact ⟨List.length_replicate, rfl⟩

/-- The schema that the client is told allows as many wide characters as narrow ones, and
the check refuses them. -/
theorem wide_value_refused :
    advertisedSchema (registerTools bareHost (ToolTable.new Host .full) true true)
        "folk_set_value" = some setValueSchema ∧
      Valid setValueSchema (setArgs (wideValue (16 * 1024))) ∧
      ensureSemanticArgs (setArgs (wideValue (16 * 1024))) true ≠ pure () := by
  obtain ⟨hchars, hbytes⟩ := length_wideValue (16 * 1024)
  refine ⟨advertisedSchema_setValue, (valid_setArgs_iff _).2 hchars.le, fun haccepts => ?_⟩
  have hshort := (ensureSemanticArgs_setArgs_iff _).1 haccepts
  rw [hbytes] at hshort
  exact absurd hshort (by decide)

end ComputerUse
end FolkAround
