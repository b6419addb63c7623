import RpcCatalog.Descriptor
import RpcCatalog.Proofs.Json.Value
import RpcCatalog.Proofs.Lists
import RpcCatalog.Proofs.NameMap

/-!
# Descriptors

Types, services and configurations are read back from the JSON texts they are written as, and a text
is the same from the first time on that it was read and written again.

* `Describes`: the JSON values of a kind of descriptor are written ones, and describe what they were
  made of.
* `RoundTrips`: the same for JSON texts.
-/

set_option autoImplicit false

namespace RpcCatalog

open Json (Value Fields)

/-- What is made into a JSON value is a written value, and is read back from it. -/
structure Describes {α : Type} (toJson : α → Value) (ofJson? : Value → Option α) : Prop where
  isWritten (a : α) : (toJson a).IsWritten
  ofJson? (a : α) : ofJson? (toJson a) = some a

/-! ## Fields -/

namespace Json

theorem Value.text?_ofString (text : String) : (Value.ofString text).text? = some text := by
  rw [ofString, text?, unescape?_escape, Option.map_some, String.ofList_toList]

theorem Value.members?_record (members : List (String × Value)) :
    (Value.record members).members? = some members := by
  have hread (member : String × Value) :
      ((unescape? (escape member.1.toList)).map fun name => (String.ofList name, member.2)) =
        some member := by
    rw [unescape?_escape, Option.map_some, String.ofList_toList]
  rw [record, members?]
  exact List.mapM_map_eq_some hread members

namespace Fields

section

variable {α : Type} {name : String} {value : Value} {fields : Fields} {read : Value → Option α}
  {a default : α}

theorem of?_record {names : List String} {members : List (String × Value)}
    (hnodup : (members.map Prod.fst).Nodup) (hnames : ∀ member ∈ members, names.contains member.1) :
    Fields.of? names (.record members) = some ⟨false, members⟩ := by
  have hgiven : members.filter (fun member => names.contains member.1) = members :=
    List.filter_eq_self.2 hnames
  have hmembers := Value.members?_record members
  unfold Value.record at hmembers ⊢
  simp only [Fields.of?, hmembers, bind, Option.bind_some, hgiven, if_pos hnodup]

theorem required_eq_some (hlookup : fields.given.lookup name = some value)
    (hread : read value = some a) : fields.required name read = some a := by
  rw [required, hlookup, Option.bind_some, hread]

theorem withDefault_eq_some (hlookup : fields.given.lookup name = some value)
    (hread : read value = some a) : fields.withDefault name read default = some a := by
  rw [withDefault, hlookup]
  exact hread

theorem withDefault_of_not_given (hlookup : fields.given.lookup name = none) :
    fields.withDefault name read default = some default := by
  rw [withDefault, hlookup]

theorem nullable_text {text : Option String}
    (hlookup : fields.given.lookup name = some (.ofOption text)) :
    fields.nullable name Value.text? = some text := by
  rw [nullable, hlookup]
  cases text with
  | none => rfl
  | some text => exact congrArg (Option.map some) (Value.text?_ofString text)

end

end Fields

end Json

open Json.Fields (of?_record required_eq_some withDefault_eq_some withDefault_of_not_given
  nullable_text)

/-! ## Parts -/

section Parts

variable {α : Type} {toJson : α → Value} {ofJson? : Value → Option α}

theorem describes_text : Describes Value.ofString Value.text? where
  isWritten text := .ofString text
  ofJson? text := Value.text?_ofString text

theorem describes_bool : Describes Value.bool Value.bool? where
  isWritten b := .bool b
  ofJson? _ := rfl

theorem describes_version :
    Describes (fun version : UInt32 => .ofNat version.toNat) Value.uint32? where
  isWritten version := .ofNat version.toNat
  ofJson? version := by
    have hlt : version.toNat < UInt32.size := version.toNat_lt
    simp [Value.ofNat, Value.uint32?, Value.digits?_toDigits, hlt]

theorem Describes.list (h : Describes toJson ofJson?) :
    Describes (fun items => .list (items.map toJson)) (Value.listOf? ofJson?) where
  isWritten items := by
    refine .list fun value hvalue => ?_
    obtain ⟨item, -, rfl⟩ := List.mem_map.1 hvalue
    exact h.isWritten item
  ofJson? items := by
    rw [Value.listOf?, Value.items?, Option.bind_some, List.mapM_map_eq_some h.ofJson?]

theorem describes_strings : Describes Value.ofStrings Value.strings? := describes_text.list

theorem isWritten_ofOption (text : Option String) : (Value.ofOption text).IsWritten := by
  cases text with
  | none => exact .null
  | some text => exact .ofString text

theorem describes_overrides : Describes overridesToJson overridesOfJson? where
  isWritten overrides := by
    refine .record fun member hmember => ?_
    obtain ⟨⟨package, target⟩, -, rfl⟩ := List.mem_map.1 hmember
    exact .ofString target
  ofJson? overrides := by
    have hread (entry : String × String) :
        (Value.ofString entry.2).text?.bind (fun target => some (entry.1, target)) =
          some entry := by
      rw [Value.text?_ofString, Option.bind_some]
    rw [overridesOfJson?, overridesToJson, Value.members?_record]
    simp only [bind, pure, Option.bind_some]
    rw [List.mapM_map_eq_some hread, Option.bind_some, NameMap.ofList_entries]

end Parts

/-! ## Types -/

theorem describes_typeReference : Describes TypeReference.toJson TypeReference.ofJson? where
  isWritten reference := by
    refine .record (List.forall_mem_cons.2 ⟨.ofString reference.name, ?_⟩)
    exact List.forall_mem_singleton.2 (isWritten_ofOption reference.package)
  ofJson? reference := by
    have hname := Value.text?_ofString reference.name
    simp only [TypeReference.ofJson?, bind, Option.bind_eq_some_iff]
    exact ⟨_, of?_record (by simp) (by simp), _, required_eq_some rfl hname, _, nullable_text rfl,
      rfl⟩

theorem describes_resolvedType : Describes ResolvedType.toJson ResolvedType.ofJson? where
  isWritten type := by
    obtain ⟨name, package, classes⟩ := type
    cases classes with
    | nil => exact .record (by simp [Value.IsWritten.ofString])
    | cons outermost classes =>
      have hclasses := describes_strings.isWritten (outermost :: classes)
      exact .record (by simp [Value.IsWritten.ofString, hclasses])
  ofJson? type := by
    obtain ⟨name, package, classes⟩ := type
    have hname := Value.text?_ofString name
    have hpackage := Value.text?_ofString package
    simp only [ResolvedType.ofJson?, bind, Option.bind_eq_some_iff]
    cases classes with
    | nil =>
      -- Without classes there is no member for them; the default stands in.
      exact ⟨_, of?_record (by simp) (by simp), _, required_eq_some rfl hname, _,
        required_eq_some rfl hpackage, _, withDefault_of_not_given rfl, rfl⟩
    | cons outermost classes =>
      have hclasses := describes_strings.ofJson? (outermost :: classes)
      exact ⟨_, of?_record (by simp) (by simp), _, required_eq_some rfl hname, _,
        required_eq_some rfl hpackage, _, withDefault_eq_some rfl hclasses, rfl⟩

/-! ## Services -/

section Services

variable {τ : Type} {typeToJson : τ → Value} {typeOfJson? : Value → Option τ}

theorem Describes.method (h : Describes typeToJson typeOfJson?) :
    Describes (Method.toJson typeToJson) (Method.ofJson? typeOfJson?) where
  isWritten method := by
    have hrequests := h.list.isWritten method.requestTypes
    have hcomments := describes_strings.isWritten method.comments
    exact .record (by simp [Value.IsWritten.ofString, hrequests, h.isWritten, hcomments])
  ofJson? method := by
    have hname := Value.text?_ofString method.name
    have hrequests := h.list.ofJson? method.requestTypes
    have hresponse := h.ofJson? method.responseType
    have hcomments := describes_strings.ofJson? method.comments
    simp only [Method.ofJson?, bind, Option.bind_eq_some_iff]
    exact ⟨_, of?_record (by simp) (by simp), _, required_eq_some rfl hname, _,
      required_eq_some rfl hrequests, _, required_eq_some rfl hresponse, _,
      withDefault_eq_some rfl hcomments, rfl⟩

theorem Describes.service (h : Describes typeToJson typeOfJson?) :
    Describes (Service.toJson typeToJson) (Service.ofJson? typeOfJson?) where
  isWritten service := by
    have hmethods := h.method.list.isWritten service.methods
    have hpackage := isWritten_ofOption service.protoPackage
    exact .record (by
      simp [Value.IsWritten.ofString, hmethods, hpackage, describes_strings.isWritten])
  ofJson? service := by
    have hname := Value.text?_ofString service.name
    have houtput := Value.text?_ofString service.outputPackage
    have hmethods := h.method.list.ofJson? service.methods
    have hcomments := describes_strings.ofJson? service.comments
    have hannotations := describes_strings.ofJson? service.annotations
    simp only [Service.ofJson?, bind, Option.bind_eq_some_iff]
    exact ⟨_, of?_record (by simp) (by simp), _, required_eq_some rfl hname, _, nullable_text rfl,
      _, required_eq_some rfl houtput, _, required_eq_some rfl hmethods, _,
      withDefault_eq_some rfl hcomments, _, withDefault_eq_some rfl hannotations, rfl⟩

end Services

/-! ## Configurations -/

theorem describes_configuration : Describes Configuration.toJson Configuration.ofJson? where
  isWritten configuration := by
    have hpaths := describes_strings.isWritten configuration.importPaths
    have hoverrides := describes_overrides.isWritten configuration.packageOverrides
    exact .record (by
      simp [Value.IsWritten.ofString, Value.IsWritten.ofNat, Value.IsWritten.bool, hpaths,
        hoverrides])
  ofJson? configuration := by
    have hversion := describes_version.ofJson? configuration.version
    have hextension := describes_text.ofJson? configuration.extension
    have hpaths := describes_strings.ofJson? configuration.importPaths
    have hoverrides := describes_overrides.ofJson? configuration.packageOverrides
    have hlenient := describes_bool.ofJson? configuration.lenient
    simp only [Configuration.ofJson?, bind, Option.bind_eq_some_iff]
    exact ⟨_, of?_record (by simp) (by simp), _, withDefault_eq_some rfl hversion, _,
      withDefault_eq_some rfl hextension, _, withDefault_eq_some rfl hpaths, _,
      withDefault_eq_some rfl hoverrides, _, withDefault_eq_some rfl hlenient, rfl⟩

/-! ## Texts -/

section Texts

variable {α : Type}

/-- What a JSON text describes. -/
def decode (ofJson? : Value → Option α) (text : String) : Option α :=
  (Value.ofText? text).bind ofJson?

/-- A JSON text that was read and written again. -/
def rewrite (toJson : α → Value) (ofJson? : Value → Option α) (text : String) : Option String :=
  (decode ofJson? text).map fun a => (toJson a).render

/-- Everything is read back from the texts it is written as. A text that describes something still
describes the same once it was rewritten, and rewriting it again does not change it any more. -/
structure RoundTrips (toJson : α → Value) (ofJson? : Value → Option α) : Prop where
  decode_render (a : α) : decode ofJson? (toJson a).render = some a
  decode_renderPretty (a : α) : decode ofJson? (toJson a).renderPretty = some a
  decode_rewrite (text : String) :
    (rewrite toJson ofJson? text).bind (decode ofJson?) = decode ofJson? text
  rewrite_rewrite (text : String) :
    (rewrite toJson ofJson? text).bind (rewrite toJson ofJson?) = rewrite toJson ofJson? text

theorem Describes.roundTrips {toJson : α → Value} {ofJson? : Value → Option α}
    (h : Describes toJson ofJson?) : RoundTrips toJson ofJson? := by
  have hrender (a : α) : decode ofJson? (toJson a).render = some a := by
    rw [decode, (h.isWritten a).ofText?_render, Option.bind_some, h.ofJson?]
  have hpretty (a : α) : decode ofJson? (toJson a).renderPretty = some a := by
    rw [decode, (h.isWritten a).ofText?_renderPretty, Option.bind_some, h.ofJson?]
  refine ⟨hrender, hpretty, fun text => ?_, fun text => ?_⟩
  · cases hdecode : decode ofJson? text with
    | none => rw [rewrite, hdecode, Option.map_none, Option.bind_none]
    | some a => rw [rewrite, hdecode, Option.map_some, Option.bind_some, hrender]
  · cases hdecode : decode ofJson? text with
    | none => rw [rewrite, hdecode, Option.map_none, Option.bind_none]
    | some a =>
      rw [rewrite, hdecode, Option.map_some, Option.bind_some, rewrite, hrender, Option.map_some]

end Texts

/-- Every kind of descriptor survives a round trip through its JSON texts. -/
theorem descriptors_roundTrip :
    RoundTrips TypeReference.toJson TypeReference.ofJson? ∧
    RoundTrips ResolvedType.toJson ResolvedType.ofJson? ∧
    RoundTrips (Method.toJson TypeReference.toJson) (Method.ofJson? TypeReference.ofJson?) ∧
    RoundTrips (Service.toJson TypeReference.toJson) (Service.ofJson? TypeReference.ofJson?) ∧
    RoundTrips (Service.toJson ResolvedType.toJson) (Service.ofJson? ResolvedType.ofJson?) ∧
    RoundTrips Configuration.toJson Configuration.ofJson? :=
  ⟨describes_typeReference.roundTrips, describes_resolvedType.roundTrips,
    describes_typeReference.method.roundTrips, describes_typeReference.service.roundTrips,
    describes_resolvedType.service.roundTrips, describes_configuration.roundTrips⟩

example : rewrite TypeReference.toJson TypeReference.ofJson? "\x7b \"name\": \"A\" \x7d" =
    some "\x7b\"name\":\"A\",\"package\":null\x7d" := by
  cbv

example : decode Configuration.ofJson? "[1, \".idl\"]" =
    some { extension := ".idl" } := by
  cbv

end RpcCatalog
