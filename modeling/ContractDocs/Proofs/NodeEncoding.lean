import ContractDocs.Proofs.JsonRecords

/-! The JSON values that stand for a node, and that each of them is decoded to it. The decoders only
see the values of a record's fields, so its two forms cannot be told apart. -/

namespace ContractDocs

open Json

/-- Integers that fit into 64 bits with a sign. -/
inductive IsInteger : Json → Int → Prop where
  | int {i : Int} : -Int.pow 2 63 ≤ i → i < Int.pow 2 63 → IsInteger (int i) i

/-- A kind that has a tag is written as the tag. -/
inductive NodeKind.Encodes : Json → NodeKind → Prop where
  | tag (tag : String) : Encodes (string tag) (ofTag tag)

inductive Documentation.Encodes : Json → Documentation → Prop where
  | raw (text : String) : Encodes (string text) (raw text)
  | structured {members : List (String × Json)} {text : Option String} :
      HasFields members [("text", text.map string)] →
      Encodes (object members) (structured text)

inductive TypeDescriptions.Encodes (v : Json) (t : TypeDescriptions) : Prop where
  | record : IsRecord [("typeString", t.typeString.map string)] v → Encodes v t

inductive BaseName.Encodes (v : Json) (b : BaseName) : Prop where
  | record {referencedDeclaration : Option Json} :
      IsRecord [
        ("name", b.name.map string),
        ("referencedDeclaration", referencedDeclaration)] v →
      Option.Rel IsInteger referencedDeclaration b.referencedDeclaration → Encodes v b

inductive BaseContract.Encodes (v : Json) (b : BaseContract) : Prop where
  | record {id baseName : Option Json} :
      IsRecord [("id", id), ("baseName", baseName)] v →
      Option.Rel IsInteger id b.id →
      Option.Rel BaseName.Encodes baseName b.baseName → Encodes v b

mutual

/-- The JSON values that stand for a node. Each record inside is an object or an array. -/
inductive Node.Encodes : Json → Node → Prop where
  | record {v : Json} {n : Node} {id nodeType nodes body superFunction baseFunctions baseContracts
        parameters returnParameters documentation typeDescriptions : Option Json} :
      IsRecord [
        ("id", id),
        ("nodeType", nodeType),
        ("name", n.name.map string),
        ("nodes", nodes),
        ("body", body),
        ("superFunction", superFunction),
        ("baseFunctions", baseFunctions),
        ("isConstructor", n.isConstructor.map bool),
        ("kind", n.kind.map string),
        ("contractKind", n.contractKind.map string),
        ("baseContracts", baseContracts),
        ("parameters", parameters),
        ("returnParameters", returnParameters),
        ("documentation", documentation),
        ("visibility", n.visibility.map string),
        ("typeDescriptions", typeDescriptions)] v →
      Option.Rel IsInteger id n.id →
      Option.Rel NodeKind.Encodes nodeType n.nodeType →
      Option.Rel (IsArray Node.Encodes) nodes n.nodes →
      Option.Rel Node.Encodes body n.body →
      Option.Rel IsInteger superFunction n.superFunction →
      Option.Rel (IsArray IsInteger) baseFunctions n.baseFunctions →
      Option.Rel (IsArray BaseContract.Encodes) baseContracts n.baseContracts →
      Option.Rel ParameterList.Encodes parameters n.parameters →
      Option.Rel ParameterList.Encodes returnParameters n.returnParameters →
      Option.Rel Documentation.Encodes documentation n.documentation →
      Option.Rel TypeDescriptions.Encodes typeDescriptions n.typeDescriptions →
      Node.Encodes v n

inductive ParameterList.Encodes : Json → ParameterList Node → Prop where
  | record {v : Json} {l : ParameterList Node} {parameters : Option Json} :
      IsRecord [("parameters", parameters)] v →
      Option.Rel (IsArray Node.Encodes) parameters l.parameters →
      ParameterList.Encodes v l

end

theorem TypeDescriptions.ofJson?_eq (v : Json) : ofJson? v = do
    let field ← values? RecordKind.typeDescriptions.layout v
    return { typeString := ← (field "typeString").mapM text? } := by
  unfold ofJson? RecordKind.open? values?
  cases open? RecordKind.typeDescriptions.layout v with
  | none => rfl
  | some field =>
    simp only [optional?_eq text? fun _ => rfl]
    rfl

theorem BaseName.ofJson?_eq (v : Json) : ofJson? v = do
    let field ← values? RecordKind.baseName.layout v
    return {
      name := ← (field "name").mapM text?
      referencedDeclaration := ← (field "referencedDeclaration").mapM integer? } := by
  unfold ofJson? RecordKind.open? values?
  cases open? RecordKind.baseName.layout v with
  | none => rfl
  | some field =>
    simp only [optional?_eq text? fun _ => rfl, optional?_eq integer? fun _ => rfl]
    rfl

theorem BaseContract.ofJson?_eq (v : Json) : ofJson? v = do
    let field ← values? RecordKind.baseContract.layout v
    return {
      id := ← (field "id").mapM integer?
      baseName := ← (field "baseName").mapM BaseName.ofJson? } := by
  unfold ofJson? RecordKind.open? values?
  cases open? RecordKind.baseContract.layout v with
  | none => rfl
  | some field =>
    simp only [optional?_eq integer? fun _ => rfl, optional?_eq BaseName.ofJson? fun _ => rfl]
    rfl

def ParameterList.ofJson? {ν : Type} (decode : Json → Option ν) (v : Json) :
    Option (ParameterList ν) := do
  let field ← values? RecordKind.parameterList.layout v
  return { parameters := ← (field "parameters").mapM (items? decode) }

theorem ParameterList.ofPart?_eq {ν : Type} {v : Json} {decode : Part v → Option ν}
    (plain : Json → Option ν) (h : ∀ p, decode p = plain p.val) (p : Part v) :
    ofPart? decode p = ofJson? plain p.val := by
  unfold ofPart? ofJson? RecordKind.open? values?
  cases open? RecordKind.parameterList.layout p.val with
  | none => rfl
  | some field =>
    have hinner (q : Part p.val) := h ⟨q.val, Nat.lt_trans q.property p.property⟩
    simp only [optional?_eq (items? plain) (list?_eq plain hinner)]
    rfl

theorem Node.ofJson?_eq (v : Json) : ofJson? v = do
    let field ← values? RecordKind.node.layout v
    return {
      id := ← (field "id").mapM integer?
      nodeType := ← (field "nodeType").mapM (·.text?.map NodeKind.ofTag)
      name := ← (field "name").mapM text?
      nodes := ← (field "nodes").mapM (items? ofJson?)
      body := ← (field "body").mapM ofJson?
      superFunction := ← (field "superFunction").mapM integer?
      baseFunctions := ← (field "baseFunctions").mapM (items? integer?)
      isConstructor := ← (field "isConstructor").mapM flag?
      kind := ← (field "kind").mapM text?
      contractKind := ← (field "contractKind").mapM text?
      baseContracts := ← (field "baseContracts").mapM (items? BaseContract.ofJson?)
      parameters := ← (field "parameters").mapM (ParameterList.ofJson? ofJson?)
      returnParameters := ← (field "returnParameters").mapM (ParameterList.ofJson? ofJson?)
      documentation := ← (field "documentation").mapM Documentation.ofJson?
      visibility := ← (field "visibility").mapM text?
      typeDescriptions := ← (field "typeDescriptions").mapM TypeDescriptions.ofJson? } := by
  rw [ofJson?]
  unfold RecordKind.open? values?
  cases open? RecordKind.node.layout v with
  | none => rfl
  | some field =>
    simp only [optional?_eq text? fun _ => rfl, optional?_eq integer? fun _ => rfl,
      optional?_eq flag? fun _ => rfl, optional?_eq (·.text?.map NodeKind.ofTag) fun _ => rfl,
      optional?_eq ofJson? fun _ => rfl,
      optional?_eq (items? ofJson?) (list?_eq ofJson? fun _ => rfl),
      optional?_eq (items? integer?) (list?_eq integer? fun _ => rfl),
      optional?_eq (items? BaseContract.ofJson?) (list?_eq BaseContract.ofJson? fun _ => rfl),
      optional?_eq (ParameterList.ofJson? ofJson?) (ParameterList.ofPart?_eq ofJson? fun _ => rfl),
      optional?_eq Documentation.ofJson? fun _ => rfl,
      optional?_eq TypeDescriptions.ofJson? fun _ => rfl]
    rfl

theorem NodeKind.tag_ofTag (tag : String) : (ofTag tag).tag = tag := by
  have hknown : ∀ p ∈ known, p.2.tag = p.1 := by decide
  unfold ofTag
  cases hlookup : known.lookup tag with
  | none => rfl
  | some kind =>
    obtain ⟨before, after, heq, -⟩ := List.lookup_eq_some_iff.mp hlookup
    exact hknown (tag, kind) (by rw [heq]; simp)

theorem RecordKind.fits (kind : RecordKind) (hkind : kind ≠ .artifact ∧ kind ≠ .contract)
    {fields : List (String × Option Json)}
    (hnames : fields.map (·.1) = kind.layout.map (·.name)) : Fits kind.layout fields where
  names := hnames
  nodup := by cases kind <;> decide
  optional := by
    cases kind with
    | artifact => exact absurd rfl hkind.1
    | contract => exact absurd rfl hkind.2
    | _ => decide

@[simp] theorem mapM_text (text : Option String) :
    (nonNull (text.map string)).mapM text? = some text := by
  cases text <;> rfl

@[simp] theorem mapM_flag (flag : Option Bool) :
    (nonNull (flag.map bool)).mapM flag? = some flag := by
  cases flag <;> rfl

theorem integer?_of_isInteger {v : Json} {i : Int} (h : IsInteger v i) : v.integer? = some i := by
  obtain ⟨hlow, hhigh⟩ := h
  exact if_pos ⟨hlow, hhigh⟩

theorem Documentation.ofJson?_of_encodes {v : Json} {d : Documentation} (h : Encodes v d) :
    ofJson? v = some d := by
  cases h with
  | raw text => rfl
  | @structured members text hmembers =>
    unfold ofJson? wrapped?
    dsimp only
    cases text with
    | some text =>
      rw [hmembers.filter_eq (hmembers.given _ List.mem_cons_self (string text) rfl)]
      rfl
    | none =>
      by_cases hany : ∃ v, ("text", v) ∈ members
      · obtain ⟨v, hv⟩ := hany
        obtain rfl : v = null := hmembers.absent _ List.mem_cons_self rfl _ hv rfl
        rw [hmembers.filter_eq hv]
        rfl
      · have hnone : members.filter (·.1 == "text") = [] := by
          refine List.filter_eq_nil_iff.mpr fun m hmem heq => hany ⟨m.2, ?_⟩
          rwa [← beq_iff_eq.mp heq]
        rw [hnone]
        rfl

theorem TypeDescriptions.ofJson?_of_encodes {v : Json} {t : TypeDescriptions} (h : Encodes v t) :
    ofJson? v = some t := by
  obtain ⟨hrecord⟩ := h
  obtain ⟨field, hfield, hvalues⟩ := values?_of_isRecord hrecord
    (RecordKind.typeDescriptions.fits (by decide) rfl)
  simp only [List.forall_mem_cons] at hvalues
  rw [ofJson?_eq, hfield, Option.bind_eq_bind, Option.bind_some]
  simp only [hvalues, mapM_text]
  rfl

theorem BaseName.ofJson?_of_encodes {v : Json} {b : BaseName} (h : Encodes v b) :
    ofJson? v = some b := by
  obtain ⟨hrecord, hid⟩ := h
  obtain ⟨field, hfield, hvalues⟩ := values?_of_isRecord hrecord
    (RecordKind.baseName.fits (by decide) rfl)
  simp only [List.forall_mem_cons] at hvalues
  rw [ofJson?_eq, hfield, Option.bind_eq_bind, Option.bind_some]
  simp only [hvalues, mapM_text,
    mapM_nonNull hid rfl fun _ _ _ => integer?_of_isInteger]
  rfl

theorem BaseContract.ofJson?_of_encodes {v : Json} {b : BaseContract} (h : Encodes v b) :
    ofJson? v = some b := by
  obtain ⟨hrecord, hid, hname⟩ := h
  obtain ⟨field, hfield, hvalues⟩ := values?_of_isRecord hrecord
    (RecordKind.baseContract.fits (by decide) rfl)
  simp only [List.forall_mem_cons] at hvalues
  rw [ofJson?_eq, hfield, Option.bind_eq_bind, Option.bind_some]
  simp only [hvalues,
    mapM_nonNull hid rfl fun _ _ _ => integer?_of_isInteger,
    mapM_nonNull hname rfl fun _ _ _ => BaseName.ofJson?_of_encodes]
  rfl

theorem NodeKind.ofTag_of_encodes {v : Json} {kind : NodeKind} (h : Encodes v kind) :
    v.text?.map ofTag = some kind := by
  cases h with
  | tag tag => rfl

theorem ParameterList.ofJson?_of_encodes {v : Json} {l : ParameterList Node} (h : Encodes v l)
    (hnode : ∀ w, sizeOf w < sizeOf v → ∀ n, Node.Encodes w n → Node.ofJson? w = some n) :
    ofJson? Node.ofJson? v = some l := by
  cases h with
  | @record v l parameters hrecord hparameters =>
    obtain ⟨field, hfield, hvalues⟩ := values?_of_isRecord hrecord
      (RecordKind.parameterList.fits (by decide) rfl)
    simp only [List.forall_mem_cons] at hvalues
    have hdecode : (nonNull parameters).mapM (items? Node.ofJson?) = some l.parameters := by
      refine mapM_nonNull hparameters rfl fun w hw ns hns => items?_of_isArray hns fun u hu => ?_
      have hinside : sizeOf w < sizeOf v := hrecord.sizeOf_lt List.mem_cons_self hw
      exact hnode u (Nat.lt_trans hu hinside)
    rw [ofJson?, hfield, Option.bind_eq_bind, Option.bind_some]
    simp only [hvalues, hdecode]
    rfl

theorem Node.ofJson?_null : ofJson? null = none := by
  rw [ofJson?_eq]
  rfl

theorem Node.ofJson?_of_encodes {v : Json} {n : Node} (h : Encodes v n) : ofJson? v = some n := by
  have hnode (w : Json) (hw : sizeOf w < sizeOf v) (m : Node) (hm : Encodes w m) :
      ofJson? w = some m := ofJson?_of_encodes hm
  cases h with
  | @record v n id nodeType nodes body superFunction baseFunctions baseContracts parameters
      returnParameters documentation typeDescriptions hrecord hid hkind hnodes hbody hsuper hbases
      hcontracts hparameters hreturns hdocumentation htypes =>
    obtain ⟨field, hfield, hvalues⟩ := values?_of_isRecord hrecord
      (RecordKind.node.fits (by decide) rfl)
    simp only [List.forall_mem_cons] at hvalues
    have hnodes' : (nonNull nodes).mapM (items? ofJson?) = some n.nodes := by
      refine mapM_nonNull hnodes rfl fun w hw ns hns => items?_of_isArray hns fun u hu => ?_
      have hinside := hrecord.sizeOf_lt (show ("nodes", nodes) ∈ _ by simp) hw
      exact hnode u (Nat.lt_trans hu hinside)
    have hbody' : (nonNull body).mapM ofJson? = some n.body := by
      refine mapM_nonNull hbody ofJson?_null fun w hw => ?_
      exact hnode w (hrecord.sizeOf_lt (show ("body", body) ∈ _ by simp) hw)
    have hparameters' : (nonNull parameters).mapM (ParameterList.ofJson? ofJson?) =
        some n.parameters := by
      refine mapM_nonNull hparameters rfl fun w hw l hl => ?_
      refine ParameterList.ofJson?_of_encodes hl fun u hu => hnode u (Nat.lt_trans hu ?_)
      exact hrecord.sizeOf_lt (show ("parameters", parameters) ∈ _ by simp) hw
    have hreturns' : (nonNull returnParameters).mapM (ParameterList.ofJson? ofJson?) =
        some n.returnParameters := by
      refine mapM_nonNull hreturns rfl fun w hw l hl => ?_
      refine ParameterList.ofJson?_of_encodes hl fun u hu => hnode u (Nat.lt_trans hu ?_)
      exact hrecord.sizeOf_lt (show ("returnParameters", returnParameters) ∈ _ by simp) hw
    rw [ofJson?_eq, hfield, Option.bind_eq_bind, Option.bind_some]
    simp only [hvalues, hnodes', hbody', hparameters',
      hreturns', mapM_text, mapM_flag, mapM_nonNull hid rfl fun _ _ _ => integer?_of_isInteger,
      mapM_nonNull hkind rfl fun _ _ _ => NodeKind.ofTag_of_encodes,
      mapM_nonNull hsuper rfl fun _ _ _ => integer?_of_isInteger,
      mapM_nonNull hbases rfl fun _ _ _ h => items?_of_isArray h fun _ _ _ => integer?_of_isInteger,
      mapM_nonNull hcontracts rfl fun _ _ _ h =>
        items?_of_isArray h fun _ _ _ => BaseContract.ofJson?_of_encodes,
      mapM_nonNull hdocumentation rfl fun _ _ _ => Documentation.ofJson?_of_encodes,
      mapM_nonNull htypes rfl fun _ _ _ => TypeDescriptions.ofJson?_of_encodes]
    cases n
    rfl
termination_by sizeOf v

/-- The two forms of a record are decoded alike, whatever its values are. -/
def SameForms {α : Type} (kind : RecordKind) (decode : Json → Option α) : Prop :=
  ∀ (members : List (String × Json)) (fields : List (String × Option Json)),
    HasFields members fields → fields.map (·.1) = kind.layout.map (·.name) →
    decode (object members) = decode (array (fields.map (·.2.getD null)))

theorem sameForms_of_values {α : Type} {kind : RecordKind} {decode : Json → Option α}
    {ofValues : (String → Option Json) → Option α}
    (hkind : kind ≠ .artifact ∧ kind ≠ .contract)
    (hdecode : ∀ v, decode v = (values? kind.layout v).bind ofValues)
    (hvalues : ∀ field other, (∀ name ∈ kind.layout.map (·.name), field name = other name) →
      ofValues field = ofValues other) : SameForms kind decode := by
  intro members fields hmembers hnames
  have hfits := kind.fits hkind hnames
  obtain ⟨field, hfield, hgiven⟩ := values?_of_isRecord (.object hmembers) hfits
  obtain ⟨other, hother, hothers⟩ := values?_of_isRecord .array hfits
  rw [hdecode, hdecode, hfield, hother]
  refine hvalues field other fun name hname => ?_
  rw [← hnames] at hname
  obtain ⟨f, hf, rfl⟩ := List.mem_map.mp hname
  rw [hgiven f hf, hothers f hf]

theorem Node.sameForms : SameForms .node ofJson? := by
  refine sameForms_of_values (by decide) ofJson?_eq fun field other h => ?_
  simp only [RecordKind.layout, List.map_cons, List.map_nil, List.forall_mem_cons] at h
  simp only [h]

theorem ParameterList.sameForms {ν : Type} (decode : Json → Option ν) :
    SameForms .parameterList (ofJson? decode) := by
  refine sameForms_of_values (by decide) (fun _ => rfl) fun field other h => ?_
  simp only [RecordKind.layout, List.map_cons, List.map_nil, List.forall_mem_cons] at h
  simp only [h]

theorem BaseContract.sameForms : SameForms .baseContract ofJson? := by
  refine sameForms_of_values (by decide) ofJson?_eq fun field other h => ?_
  simp only [RecordKind.layout, List.map_cons, List.map_nil, List.forall_mem_cons] at h
  simp only [h]

theorem BaseName.sameForms : SameForms .baseName ofJson? := by
  refine sameForms_of_values (by decide) ofJson?_eq fun field other h => ?_
  simp only [RecordKind.layout, List.map_cons, List.map_nil, List.forall_mem_cons] at h
  simp only [h]

theorem TypeDescriptions.sameForms : SameForms .typeDescriptions ofJson? := by
  refine sameForms_of_values (by decide) ofJson?_eq fun field other h => ?_
  simp only [RecordKind.layout, List.map_cons, List.map_nil, List.forall_mem_cons] at h
  simp only [h]

/-- A value that stands for a node is decoded to it, whichever form each record in it has. The two
forms of a record are decoded alike even where they stand for nothing. -/
theorem Node.ofJson?_of_any_form :
    (∀ (v : Json) (n : Node), Encodes v n → ofJson? v = some n) ∧
      (SameForms .node ofJson? ∧ SameForms .parameterList (ParameterList.ofJson? ofJson?) ∧
        SameForms .baseContract BaseContract.ofJson? ∧ SameForms .baseName BaseName.ofJson? ∧
        SameForms .typeDescriptions TypeDescriptions.ofJson?) ∧
      ∀ tag, (NodeKind.ofTag tag).tag = tag :=
  ⟨fun _ _ => ofJson?_of_encodes,
    ⟨Node.sameForms, ParameterList.sameForms _, BaseContract.sameForms, BaseName.sameForms,
      TypeDescriptions.sameForms⟩,
    NodeKind.tag_ofTag⟩

def reference : Node where
  id := some (-1)
  documentation := some (.structured none)

/-- An array, with an object around no text. -/
def referenceJson : Json :=
  array [int (-1), null, null, null, null, null, null, null, null, null, null, null, null,
    object [("src", null)], null, null]

def block : Node where
  nodeType := some (NodeKind.ofTag "YulBlock")
  nodes := some []
  body := some { nodes := some [reference] }
  baseFunctions := some [1, 2]
  isConstructor := some false
  baseContracts := some [{ baseName := some { name := some "Base" } }]
  parameters := some { parameters := some [reference] }
  documentation := some (.raw "")

/-- The fields of `block` with their values. -/
def blockFields : List (String × Option Json) :=
  [("id", none), ("nodeType", string "YulBlock"), ("name", none), ("nodes", array []),
    ("body", object [("nodes", array [referenceJson])]), ("superFunction", none),
    ("baseFunctions", array [int 1, int 2]), ("isConstructor", bool false), ("kind", none),
    ("contractKind", none),
    ("baseContracts", array [object [("baseName", array [string "Base", null])]]),
    ("parameters", array [array [referenceJson]]), ("returnParameters", none),
    ("documentation", string ""), ("visibility", none), ("typeDescriptions", none)]

def blockMembers : List (String × Json) :=
  [("parameters", array [array [referenceJson]]), ("name", null), ("documentation", string ""),
    ("nodeType", string "YulBlock"), ("src", string "0:1:0"), ("isConstructor", bool false),
    ("baseFunctions", array [int 1, int 2]), ("nodes", array []),
    ("body", object [("nodes", array [referenceJson])]),
    ("baseContracts", array [object [("baseName", array [string "Base", null])]])]

theorem blockMembers_hasFields : HasFields blockMembers blockFields where
  nodup := by decide
  given := by simp [blockMembers, blockFields]
  absent := by simp [blockMembers, blockFields]

theorem reference_encodes : Node.Encodes referenceJson reference :=
  .record .array (.some (.int (by decide) (by decide))) .none .none .none .none .none .none .none
    .none (.some (.structured ⟨by decide, by simp, by simp⟩)) .none

theorem block_encodes : Node.Encodes (object blockMembers) block := by
  have hnodes : IsArray Node.Encodes (array [referenceJson]) [reference] :=
    .items (.cons reference_encodes .nil)
  have hbody : Node.Encodes (object [("nodes", array [referenceJson])])
      { nodes := some [reference] } :=
    .record (.object ⟨by decide, by simp, by simp⟩) .none .none (.some hnodes) .none .none .none
      .none .none .none .none .none
  have hbase : BaseContract.Encodes (object [("baseName", array [string "Base", null])])
      { baseName := some { name := some "Base" } } :=
    .record (.object ⟨by decide, by simp, by simp⟩) .none (.some (.record .array .none))
  have hids : IsArray IsInteger (array [int 1, int 2]) [1, 2] :=
    .items (.cons (.int (by decide) (by decide)) (.cons (.int (by decide) (by decide)) .nil))
  exact .record (.object blockMembers_hasFields) .none (.some (.tag _)) (.some (.items .nil))
    (.some hbody) .none (.some hids) (.some (.items (.cons hbase .nil)))
    (.some (.record .array (.some hnodes))) .none (.some (.raw _)) .none

theorem ofJson?_block :
    Node.Encodes (object blockMembers) block ∧ Node.ofJson? (object blockMembers) = some block ∧
      Node.ofJson? (array (blockFields.map (·.2.getD null))) = some block := by
  obtain ⟨hencodes, ⟨hforms, -⟩, -⟩ := Node.ofJson?_of_any_form
  have hblock := hencodes _ _ block_encodes
  refine ⟨block_encodes, hblock, ?_⟩
  rw [← hforms _ _ blockMembers_hasFields (by decide), hblock]

end ContractDocs
