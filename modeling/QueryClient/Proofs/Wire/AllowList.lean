import QueryClient.Proofs.Wire.Reencoding
import QueryClient.Proofs.Wire.Refusing

/-!
# The allow-list cannot be passed by

A value of a foreign type is only built when its name is well formed and was allowed, wherever it
stands in a message; and as soon as the parse comes to any other name that is not registered, the
frame fails with that name.
-/

namespace QueryClient

/-! ## Names -/

/-- An ASCII letter or digit, a dot, an underscore or a dollar sign. -/
def IsNameChar (c : Char) : Prop :=
  'a' ≤ c ∧ c ≤ 'z' ∨ 'A' ≤ c ∧ c ≤ 'Z' ∨ '0' ≤ c ∧ c ≤ '9' ∨ c = '.' ∨ c = '_' ∨ c = '$'

/-- A name that consists of dotted parts, none of them empty. -/
structure IsTypeName (name : String) : Prop where
  nonempty : name ≠ ""
  chars : ∀ c ∈ name.toList, IsNameChar c
  leading : ¬ ['.'] <+: name.toList
  trailing : ¬ ['.'] <:+ name.toList
  doubled : ¬ ['.', '.'] <:+: name.toList

namespace AllowList

theorem isUpper_iff (c : Char) : c.isUpper = true ↔ 'A' ≤ c ∧ c ≤ 'Z' :=
  decide_eq_true_iff

theorem isLower_iff (c : Char) : c.isLower = true ↔ 'a' ≤ c ∧ c ≤ 'z' :=
  Bool.and_eq_true_iff.trans (and_congr decide_eq_true_iff decide_eq_true_iff)

theorem isDigit_iff (c : Char) : c.isDigit = true ↔ '0' ≤ c ∧ c ≤ '9' :=
  Bool.and_eq_true_iff.trans (and_congr decide_eq_true_iff decide_eq_true_iff)

theorem isAlphanum_iff (c : Char) : c.isAlphanum = true ↔
    (c.isUpper = true ∨ c.isLower = true) ∨ c.isDigit = true :=
  Bool.or_eq_true_iff.trans (or_congr_left Bool.or_eq_true_iff)

theorem isNameChar_iff {c : Char} : isNameChar c = true ↔ IsNameChar c := by
  simp only [isNameChar, IsNameChar, Bool.or_eq_true, beq_iff_eq, isAlphanum_iff, isUpper_iff,
    isLower_iff, isDigit_iff]
  tauto

theorem hasDoubleDot_iff (cs : List Char) : hasDoubleDot cs = true ↔ ['.', '.'] <:+: cs := by
  fun_induction hasDoubleDot cs with
  | case1 rest => exact iff_of_true rfl ⟨[], rest, rfl⟩
  | case2 c cs hdots ih =>
    rw [ih, List.infix_cons_iff]
    refine (or_iff_right ?_).symm
    rintro ⟨rest, hrest⟩
    obtain ⟨rfl, rfl⟩ := List.cons.inj hrest
    exact hdots rest rfl rfl
  | case3 => simp

theorem head?_eq_some_iff_prefix {c : Char} {cs : List Char} : cs.head? = some c ↔ [c] <+: cs := by
  cases cs <;> simp [eq_comm]

theorem getLast?_eq_some_iff_suffix {c : Char} {cs : List Char} :
    cs.getLast? = some c ↔ [c] <:+ cs := by
  rw [List.getLast?_eq_some_iff]
  exact exists_congr fun front => eq_comm

theorem isWellFormed_iff {name : String} : isWellFormed name = true ↔ IsTypeName name := by
  have hempty : name.toList.isEmpty = true ↔ name = "" := by
    rw [List.isEmpty_iff, String.toList_eq_nil_iff]
  have hiff : isWellFormed name = true ↔ name ≠ "" ∧ ¬ ['.'] <+: name.toList ∧
      ¬ ['.'] <:+ name.toList ∧ ¬ ['.', '.'] <:+: name.toList ∧
      ∀ c ∈ name.toList, IsNameChar c := by
    simp only [isWellFormed, Bool.and_eq_true, Bool.not_eq_true', ← Bool.not_eq_true, hempty,
      bne_iff_ne, ne_eq, head?_eq_some_iff_prefix, getLast?_eq_some_iff_suffix, hasDoubleDot_iff,
      List.all_eq_true, isNameChar_iff, and_assoc]
  rw [hiff]
  constructor
  · rintro ⟨hnonempty, hleading, htrailing, hdoubled, hchars⟩
    exact ⟨hnonempty, hchars, hleading, htrailing, hdoubled⟩
  · rintro ⟨hnonempty, hchars, hleading, htrailing, hdoubled⟩
    exact ⟨hnonempty, hleading, htrailing, hdoubled, hchars⟩

/-! ## Rules -/

/-- One way to extend an allow-list. -/
inductive Rule where
  | exact (name : String)
  | under (pre : String)
deriving DecidableEq, Repr

/-- A prefix without its last dot. -/
def withoutDot (pre : String) : String :=
  if pre.toList.getLast? = some '.' then String.ofList pre.toList.dropLast else pre

def Rule.Covers : Rule → String → Prop
  | .exact allowed, name => name = allowed
  | .under pre, name => ∃ rest, rest ≠ "" ∧ name = withoutDot pre ++ "." ++ rest

def extend (list : AllowList) : Rule → AllowList
  | .exact name => list.allow name
  | .under pre => list.allowUnder pre

/-- The allow-list that some rules make, one after another. -/
def ofRules (rules : List Rule) : AllowList :=
  rules.foldl extend empty

/-- A name that may stand for a foreign type: well formed, and covered by one of the rules. -/
def Admits (rules : List Rule) (name : String) : Prop :=
  IsTypeName name ∧ ∃ rule ∈ rules, rule.Covers name

/-- The prefix as the list keeps it. -/
theorem toList_kept (pre : String) :
    (if pre.toList.getLast? = some '.' then pre else pre.push '.').toList =
      (withoutDot pre).toList ++ ['.'] := by
  unfold withoutDot
  split_ifs with hdot
  · obtain ⟨front, hfront⟩ := List.getLast?_eq_some_iff.mp hdot
    simp [hfront]
  · simp

/-- A name that begins like a dotted prefix goes on behind the dot, since it cannot end there. -/
theorem covers_under_iff {pre name : String} (hname : IsTypeName name) :
    (Rule.under pre).Covers name ↔ (withoutDot pre).toList ++ ['.'] <+: name.toList := by
  constructor
  · rintro ⟨rest, -, rfl⟩
    exact ⟨rest.toList, by simp⟩
  · rintro ⟨rest, hrest⟩
    refine ⟨String.ofList rest, ?_, ?_⟩
    · intro hempty
      rw [← String.toList_eq_nil_iff, String.toList_ofList] at hempty
      rw [hempty, List.append_nil] at hrest
      exact hname.trailing ⟨_, hrest⟩
    · rw [← String.toList_inj, ← hrest]
      simp

/-- What a rule adds: the names it covers, among those that are well formed. -/
theorem permits_extend (list : AllowList) (rule : Rule) {name : String} (hname : IsTypeName name) :
    (list.extend rule).permits name = true ↔ list.permits name = true ∨ rule.Covers name := by
  have hwell := isWellFormed_iff.mpr hname
  cases rule with
  | exact allowed =>
    simp only [permits, hwell, extend, allow, Rule.Covers, Bool.true_and, Bool.or_eq_true,
      List.contains_iff_mem, List.mem_cons]
    tauto
  | under pre =>
    rw [covers_under_iff hname]
    simp only [permits, hwell, extend, allowUnder, Bool.true_and, Bool.or_eq_true,
      List.any_append, List.any_cons, List.any_nil, Bool.or_false, List.isPrefixOf_iff_prefix,
      toList_kept, or_assoc]

theorem permits_foldl (rules : List Rule) (list : AllowList) {name : String}
    (hname : IsTypeName name) : (rules.foldl extend list).permits name = true ↔
      list.permits name = true ∨ ∃ rule ∈ rules, rule.Covers name := by
  induction rules generalizing list with
  | nil => simp
  | cons rule rules ih =>
    rw [List.foldl_cons, ih, permits_extend list rule hname, or_assoc]
    simp only [List.mem_cons, exists_eq_or_imp]

theorem permits_ofRules_iff {rules : List Rule} {name : String} :
    (ofRules rules).permits name = true ↔ Admits rules name := by
  constructor
  · intro h
    have hname : IsTypeName name := by
      rw [permits, Bool.and_eq_true] at h
      exact isWellFormed_iff.mp h.1
    rcases (permits_foldl rules empty hname).mp h with hempty | hcovers
    · simp [permits, empty] at hempty
    · exact ⟨hname, hcovers⟩
  · rintro ⟨hname, hcovers⟩
    exact (permits_foldl rules empty hname).mpr (.inr hcovers)

/-- Names that are not those of a kind. -/
theorem ofName?_eq_none_iff {name : String} :
    Kind.ofName? name = none ↔ ∀ kind : Kind, name ≠ kind.name := by
  rw [Option.eq_none_iff_forall_ne_some]
  exact forall_congr' fun kind => not_congr Kind.ofName?_eq_some_iff

/-- A name stands for a foreign type if it is not registered, and the rules admit it. -/
theorem resolve_ofRules_eq_ok_none_iff {rules : List Rule} {name : String} :
    (ofRules rules).resolve name = .ok none ↔
      (∀ kind : Kind, name ≠ kind.name) ∧ Admits rules name := by
  rw [← permits_ofRules_iff, ← ofName?_eq_none_iff]
  unfold resolve
  cases Kind.ofName? name with
  | some kind => simp
  | none =>
    dsimp only
    split_ifs with hpermits <;> simp [hpermits]

theorem resolve_ofRules_eq_error_iff {rules : List Rule} {name : String} :
    (ofRules rules).resolve name = .error (.disallowedType name) ↔
      (∀ kind : Kind, name ≠ kind.name) ∧ ¬ Admits rules name := by
  rw [resolve_eq_error_iff, ← permits_ofRules_iff, ← ofName?_eq_none_iff, Bool.not_eq_true]
  exact and_iff_right rfl

end AllowList

/-! ## Frames -/

namespace Frame

variable {allowed : AllowList} {m : Message} {max : Nat} {frame : Bytes}

/-- Whatever a frame gives is as it would arrive, and all of it is permitted. -/
theorem parts_of_decode (h : decode allowed max frame = .ok m) :
    ∀ part ∈ m.parts, part.Exact ∧ part.Permitted allowed := by
  obtain ⟨body, payload, kinds, contents, rfl, hf, hkinds, -⟩ := payload_of_decode h
  obtain ⟨rest, rfl, hmessage⟩ := Format.seq_exactly.mp hf
  rw [Format.fields_singleton] at hmessage
  obtain ⟨sent, rfl, rfl, hgood⟩ :=
    Fills.hereditary.of_message body 0 rest kinds contents hmessage hkinds
  rwa [Message.bind_asSent fun part hpart => (hgood part hpart).1]

/-- A frame whose payload gets to be read fails with a name if that payload does. -/
theorem decode_eq_disallowed_iff {name : String} :
    decode allowed max frame = .error (.disallowedType name) ↔
      ∃ payload rest, frame = Bytes.ofNat 4 payload.length ++ payload ++ rest ∧
        payload.length < 2 ^ 32 ∧ checkLength payload.length max = .ok () ∧
        decodePayload allowed payload = .error (.disallowedType name) := by
  constructor
  · intro h
    unfold decode at h
    split at h
    · next fault reader hpayload =>
      cases h
      have hmalformed := plain_payload max _ _ (congrArg Prod.fst hpayload)
      exact absurd rfl (hmalformed.2 name)
    next content reader hpayload =>
    obtain ⟨hcheck, hlt, hframe⟩ := prefix_of_payload hpayload
    split at h
    · next fault hbody =>
      cases h
      exact ⟨content, reader.rest, hframe, hlt, hcheck, hbody⟩
    · split at h
      · next hcontents =>
        cases h
        have hmalformed := Appendix.malformed_of_readAll (congrArg Prod.fst hcontents)
        exact absurd rfl (hmalformed.2 name)
      · split at h <;> cases h
  · rintro ⟨payload, rest, rfl, hlt, hcheck, hbody⟩
    obtain ⟨hpos, hmax⟩ := checkLength_eq_ok_iff.mp hcheck
    obtain ⟨pos, hpayload⟩ := payload_of_prefix (List.length_pos_iff.mp hpos) hmax hlt rest
    unfold decode
    rw [hpayload]
    dsimp only
    rw [hbody]

/-- A name that stands in place of a type, unregistered and not admitted, ends the frame, and no
value in a message that is read is named otherwise than the rules admit. -/
theorem decode_guarded (rules : List AllowList.Rule) (max : Nat) (frame : Bytes) :
    (∀ m, decode (.ofRules rules) max frame = .ok m →
      ∀ typeName parts, .named typeName parts ∈ m.parts →
        (∀ kind : Kind, typeName ≠ kind.name) ∧ AllowList.Admits rules typeName) ∧
    ∀ name, decode (.ofRules rules) max frame = .error (.disallowedType name) ↔
      (∃ body rest, frame = Bytes.ofNat 4 (body.length + 1) ++ version :: body ++ rest ∧
        body.length + 1 < 2 ^ 32 ∧ body.length + 1 ≤ max ∧
        Encounter.value (.ofRules rules) Decoder.maxDepth 0 body name) ∧
      (∀ kind : Kind, name ≠ kind.name) ∧ ¬ AllowList.Admits rules name := by
  constructor
  · intro m hdecode typeName parts hmem
    have hpermitted : (Value.named typeName parts).Permitted (.ofRules rules) :=
      (parts_of_decode hdecode _ hmem).2
    exact AllowList.resolve_ofRules_eq_ok_none_iff.mp hpermitted
  · intro name
    rw [decode_eq_disallowed_iff, ← AllowList.resolve_ofRules_eq_error_iff]
    constructor
    · rintro ⟨payload, rest, rfl, hlt, hcheck, hpayload⟩
      obtain ⟨⟨body, rfl, hencounter⟩, hresolve⟩ := decodePayload_eq_disallowed_iff.mp hpayload
      exact ⟨⟨body, rest, rfl, hlt, (checkLength_eq_ok_iff.mp hcheck).2, hencounter⟩, hresolve⟩
    · rintro ⟨⟨body, rest, rfl, hlt, hmax, hencounter⟩, hresolve⟩
      exact ⟨version :: body, rest, rfl, hlt, checkLength_eq_ok_iff.mpr ⟨Nat.succ_pos _, hmax⟩,
        decodePayload_eq_disallowed_iff.mpr ⟨⟨body, rfl, hencounter⟩, hresolve⟩⟩

/-- A reply that holds a list of one foreign value. -/
def nestedFrame (name : String) : Bytes :=
  let foreign := [Kind.byName] ++ Bytes.ofNat 2 (Utf8.size name) ++ Utf8.encode name ++
    Bytes.ofNat 4 0
  let payload := [version, Kind.reply.code] ++ Bytes.ofNat 8 7 ++ [0] ++
    [Kind.list.code] ++ Bytes.ofNat 4 1 ++ foreign
  Bytes.ofNat 4 payload.length ++ payload

theorem decode_guarded_nestedFrame :
    (∃ m, decode (.ofRules [.under "a"]) 64 (nestedFrame "a.B") = .ok m ∧
      ∀ typeName parts, .named typeName parts ∈ m.parts →
        AllowList.Admits [.under "a"] typeName) ∧
    decode (.ofRules [.under "a"]) 64 (nestedFrame "ab.C") = .error (.disallowedType "ab.C") ∧
      ¬ AllowList.Admits [.under "a"] "ab.C" := by
  constructor
  · have hkind : (decode (.ofRules [.under "a"]) 64 (nestedFrame "a.B")).toOption.map
        Message.kind = some .reply := by
      decide +kernel
    obtain ⟨m, hframe, -⟩ := Operation.exists_of_toOption_map hkind
    refine ⟨m, hframe, fun typeName parts hmem => ?_⟩
    exact ((decode_guarded [.under "a"] 64 _).1 m hframe typeName parts hmem).2
  · have herror : decode (.ofRules [.under "a"]) 64 (nestedFrame "ab.C") =
        .error (.disallowedType "ab.C") := by
      have hfault : (match decode (.ofRules [.under "a"]) 64 (nestedFrame "ab.C") with
          | .error fault => decide (fault = .disallowedType "ab.C")
          | .ok _ => false) = true := by
        decide +kernel
      split at hfault
      · next hframe => rw [hframe, of_decide_eq_true hfault]
      · cases hfault
    exact ⟨herror, (((decode_guarded [.under "a"] 64 _).2 "ab.C").mp herror).2.2⟩

end Frame

end QueryClient
