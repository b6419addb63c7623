import Mathlib.Data.List.Induction
import RpcCatalog.Proofs.Lists
import RpcCatalog.Resolution

/-!
# All or nothing

Services are resolved all together or not at all.

* `Method.references`, `Service.references`: the types that a service names, in the order in which
  they are converted.
* `Method.Converts`, `Service.Converts`: one service is another with its types converted, and with
  nothing else changed.
* `SymbolTable.removeServices_eq`: what is found as services are removed one by one.
* `SymbolTable.firstNamed`: the services under some names, each where its name occurs first.
* `SymbolTable.resolveServices_all_or_nothing`: the services under some names are converted one by
  one if each of their references can be resolved, and else the first that cannot is to blame.
-/

set_option autoImplicit false

namespace RpcCatalog

/-! ## Conversions of services -/

section Conversion

variable {ε α β : Type}

/-- The types of a call, the request types first. -/
def Method.references (method : Method α) : List α := method.requestTypes ++ [method.responseType]

/-- The types of a service, method by method. -/
def Service.references (service : Service α) : List α := service.methods.flatMap Method.references

/-- A method is another with its types converted, position by position. -/
structure Method.Converts (convert : α → Except ε β) (method : Method α) (converted : Method β) :
    Prop where
  name : converted.name = method.name
  requestTypes :
    List.Forall₂ (fun a b => convert a = .ok b) method.requestTypes converted.requestTypes
  responseType : convert method.responseType = .ok converted.responseType
  comments : converted.comments = method.comments

/-- A service is another with the types of its methods converted, position by position. -/
structure Service.Converts (convert : α → Except ε β) (service : Service α)
    (converted : Service β) : Prop where
  name : converted.name = service.name
  protoPackage : converted.protoPackage = service.protoPackage
  outputPackage : converted.outputPackage = service.outputPackage
  methods : List.Forall₂ (Method.Converts convert) service.methods converted.methods
  comments : converted.comments = service.comments
  annotations : converted.annotations = service.annotations

variable {convert : α → Except ε β}

theorem Method.mapTypesM_eq_ok_iff {method : Method α} {converted : Method β} :
    method.mapTypesM convert = .ok converted ↔ method.Converts convert converted := by
  unfold mapTypesM
  simp only [Except.bind_eq_ok_iff, List.mapM_except_eq_ok_iff]
  constructor
  · rintro ⟨requestTypes, hrequest, responseType, hresponse, h⟩
    cases h
    exact ⟨rfl, hrequest, hresponse, rfl⟩
  · intro h
    refine ⟨_, h.requestTypes, _, h.responseType, congrArg Except.ok ?_⟩
    rw [← h.name, ← h.comments]

theorem Service.mapTypesM_eq_ok_iff {service : Service α} {converted : Service β} :
    service.mapTypesM convert = .ok converted ↔ service.Converts convert converted := by
  unfold mapTypesM
  simp only [Except.bind_eq_ok_iff, List.mapM_except_eq_ok_iff, Method.mapTypesM_eq_ok_iff]
  constructor
  · rintro ⟨methods, hmethods, h⟩
    cases h
    exact ⟨rfl, rfl, rfl, hmethods, rfl, rfl⟩
  · intro h
    refine ⟨_, h.methods, congrArg Except.ok ?_⟩
    rw [← h.name, ← h.protoPackage, ← h.outputPackage, ← h.comments, ← h.annotations]

theorem Method.error?_mapTypesM (convert : α → Except ε β) (method : Method α) :
    (method.mapTypesM convert).error? = method.references.findSome? fun a => (convert a).error? := by
  rw [references, List.findSome?_append, ← List.error?_mapM, List.findSome?_singleton, mapTypesM]
  cases method.requestTypes.mapM convert with
  | error e => rfl
  | ok requestTypes => cases convert method.responseType <;> rfl

theorem Service.error?_mapTypesM (convert : α → Except ε β) (service : Service α) :
    (service.mapTypesM convert).error? =
      service.references.findSome? fun a => (convert a).error? := by
  have hmethods := List.error?_mapM (Method.mapTypesM convert) service.methods
  simp only [Method.error?_mapTypesM] at hmethods
  rw [references, List.findSome?_flatMap, ← hmethods, mapTypesM]
  cases service.methods.mapM (Method.mapTypesM convert) <;> rfl

end Conversion

/-! ## Services under names -/

namespace SymbolTable

/-- Removal finds under each new name what the registry held at the start. -/
theorem removeServices_eq {seen : List String} {registry : ServiceRegistry}
    {find? : String → Option (Service TypeReference)}
    (h : ∀ name, name ∉ seen → registry.find? name = find? name) (names : List String) :
    removeServices seen registry names =
      (names.filter (· ∉ seen)).eraseDups.filterMap find? := by
  induction names generalizing seen registry with
  | nil => rfl
  | cons name names ih =>
    rw [removeServices]
    by_cases hseen : name ∈ seen
    · rw [if_pos hseen, ih h, List.filter_cons_of_neg (by simpa using hseen)]
    · have hrest : ∀ other, other ∉ name :: seen →
          (registry.remove name).2.find? other = find? other := by
        intro other hother
        obtain ⟨hne, hother⟩ := not_or.1 (List.mem_cons.not.1 hother)
        rw [← h other hother]
        exact (NameMap.find?_erase registry.services name other).trans (if_neg hne)
      have hnew : ((names.filter (· ∉ seen)).filter fun other => !other == name) =
          names.filter (· ∉ name :: seen) := by
        rw [List.filter_filter]
        refine List.filter_congr fun other _ => ?_
        by_cases heq : other = name <;> simp [heq]
      rw [if_neg hseen, List.filter_cons_of_pos (by simpa using hseen), List.eraseDups_cons, hnew,
        List.filterMap_cons, ← ih hrest, ← h name hseen]
      cases hname : registry.find? name <;> simp only [ServiceRegistry.remove, hname]

theorem servicesOf_eq_filterMap (table : SymbolTable) (names : List String) :
    table.servicesOf names = names.eraseDups.filterMap table.services.find? := by
  rw [servicesOf, removeServices_eq (fun _ _ => rfl)]
  simp

/-- The services under some names: a name counts where no equal one stands before it, and if there
is a service under it. -/
def firstNamed (table : SymbolTable) (names : List String) : List (Service TypeReference) :=
  names.zipIdx.filterMap fun entry =>
    if entry.1 ∈ names.take entry.2 then none else table.services.find? entry.1

theorem servicesOf_eq_firstNamed (table : SymbolTable) (names : List String) :
    table.servicesOf names = table.firstNamed names := by
  rw [servicesOf_eq_filterMap]
  unfold firstNamed
  -- From the end: a further name changes nothing for those before it.
  induction names using List.reverseRecOn with
  | nil => rfl
  | append_singleton names name ih =>
    have hfront : names.zipIdx.filterMap (fun entry =>
          if entry.1 ∈ (names ++ [name]).take entry.2 then none
          else table.services.find? entry.1) =
        names.zipIdx.filterMap (fun entry =>
          if entry.1 ∈ names.take entry.2 then none else table.services.find? entry.1) := by
      refine List.filterMap_congr fun entry hentry => ?_
      have hlt : entry.2 < names.length := by
        simpa using List.snd_lt_of_mem_zipIdx hentry
      rw [List.take_append_of_le_length (Nat.le_of_lt hlt)]
    rw [List.eraseDups_append, List.filterMap_append, List.zipIdx_append, List.filterMap_append,
      hfront, ← ih]
    by_cases hname : name ∈ names
    · simp [List.removeAll, hname]
    · simp [List.removeAll, hname, List.eraseDups_cons, List.filterMap_cons]

theorem firstNamed_congr {table table' : SymbolTable} {names : List String}
    (h : ∀ name ∈ names, table'.services.find? name = table.services.find? name) :
    table'.firstNamed names = table.firstNamed names := by
  refine List.filterMap_congr fun entry hentry => ?_
  rw [h entry.1 (List.fst_mem_of_mem_zipIdx hentry)]

/-! ## Their resolution -/

/-- Why a type cannot be resolved hangs only on which packages and messages are known. -/
theorem error?_resolveType (table : SymbolTable) (reference : TypeReference) :
    (table.resolveType reference).error? =
      if (table.overrideOf reference).isSome then none
      else if (table.types.package? reference.package).isSome then
        if (table.types.find? reference.package reference.name).isSome then none
        else some (.unresolvedType reference)
      else some (.unresolvedPackage reference) := by
  unfold resolveType
  cases table.overrideOf reference with
  | some target => rfl
  | none =>
    cases hpackage : table.types.package? reference.package with
    | none => rfl
    | some types =>
      have hfind : table.types.find? reference.package reference.name =
          types.find? reference.name := by
        rw [TypeRegistry.find?, hpackage, Option.bind_some]
      rw [hfind]
      dsimp only
      cases types.find? reference.name <;> rfl

theorem resolveType_eq_ok_iff {table : SymbolTable} {reference : TypeReference}
    {type : ResolvedType} :
    table.resolveType reference = .ok type ↔
      (∃ target, table.overrideOf reference = some target ∧
        type = { name := reference.name, package := target }) ∨
      table.overrideOf reference = none ∧
        ∃ entry, table.types.find? reference.package reference.name = some entry ∧
          type = entry.resolved := by
  unfold resolveType TypeRegistry.find?
  cases table.overrideOf reference with
  | some target => simp [eq_comm]
  | none =>
    cases table.types.package? reference.package with
    | none => simp
    | some types => cases hfind : types.find? reference.name <;> simp [hfind, eq_comm]

theorem resolveServices_eq_ok_iff {table : SymbolTable} {names : List String}
    {services : List (Service ResolvedType)} :
    table.resolveServices names = .ok services ↔
      List.Forall₂ (Service.Converts table.resolveType) (table.firstNamed names) services := by
  rw [resolveServices, List.mapM_except_eq_ok_iff, servicesOf_eq_firstNamed]
  simp only [resolveService, Service.mapTypesM_eq_ok_iff]

theorem error?_resolveServices (table : SymbolTable) (names : List String) :
    (table.resolveServices names).error? =
      ((table.firstNamed names).flatMap Service.references).findSome?
        fun reference => (table.resolveType reference).error? := by
  rw [resolveServices, List.error?_mapM, List.findSome?_flatMap, servicesOf_eq_firstNamed]
  simp only [resolveService, Service.error?_mapTypesM]

theorem resolveServices_congr {table table' : SymbolTable} {names : List String}
    (hoverrides : table'.overrides = table.overrides) (htypes : table'.types = table.types)
    (hservices : ∀ name ∈ names, table'.services.find? name = table.services.find? name) :
    table'.resolveServices names = table.resolveServices names := by
  have hresolve : table'.resolveType = table.resolveType := by
    funext reference
    rw [resolveType, resolveType, overrideOf, overrideOf, hoverrides, htypes]
  have hservice : table'.resolveService = table.resolveService := by
    funext service
    rw [resolveService, resolveService, hresolve]
  rw [resolveServices, resolveServices, servicesOf_eq_firstNamed, servicesOf_eq_firstNamed,
    firstNamed_congr hservices, hservice]

/-- The services under some names are resolved exactly if each of their references can be resolved.
They are then converted one by one, in order; otherwise the first reference that cannot be resolved
is to blame. Services under other names play no part. -/
theorem resolveServices_all_or_nothing (table : SymbolTable) (names : List String) :
    ((∃ services, table.resolveServices names = .ok services) ↔
      ∀ service ∈ table.firstNamed names, ∀ method ∈ service.methods,
        ∀ reference ∈ method.requestTypes ++ [method.responseType],
          ∃ type, table.resolveType reference = .ok type) ∧
    (∀ services, table.resolveServices names = .ok services ↔
      List.Forall₂ (Service.Converts table.resolveType) (table.firstNamed names) services) ∧
    (∀ e, table.resolveServices names = .error e ↔
      ∃ front reference back,
        (table.firstNamed names).flatMap Service.references = front ++ reference :: back ∧
          (∀ earlier ∈ front, ∃ type, table.resolveType earlier = .ok type) ∧
            table.resolveType reference = .error e) ∧
    ∀ table' : SymbolTable, table'.overrides = table.overrides → table'.types = table.types →
      (∀ name ∈ names, table'.services.find? name = table.services.find? name) →
        table'.resolveServices names = table.resolveServices names := by
  refine ⟨?_, fun _ => resolveServices_eq_ok_iff, fun e => ?_, fun _ => resolveServices_congr⟩
  · rw [← Except.error?_eq_none_iff, error?_resolveServices, List.findSome?_eq_none_iff]
    simp only [Except.error?_eq_none_iff, Service.references, Method.references, List.mem_flatMap]
    constructor
    · intro h service hservice method hmethod reference hreference
      exact h reference ⟨service, hservice, method, hmethod, hreference⟩
    · rintro h reference ⟨service, hservice, method, hmethod, hreference⟩
      exact h service hservice method hmethod reference hreference
  · rw [← Except.error?_eq_some_iff, error?_resolveServices, List.findSome?_eq_some_iff]
    simp only [Except.error?_eq_none_iff, Except.error?_eq_some_iff]
    constructor
    · rintro ⟨front, reference, back, hsplit, herror, hfront⟩
      exact ⟨front, reference, back, hsplit, hfront, herror⟩
    · rintro ⟨front, reference, back, hsplit, hfront, herror⟩
      exact ⟨front, reference, back, hsplit, herror, hfront⟩

/-- A service with one call. -/
def calling (name : String) (request response : TypeReference) : Service TypeReference where
  name
  protoPackage := some "p"
  outputPackage := "out.p"
  methods := [{ name := "Call", requestTypes := [request], responseType := response }]

/-- A message, and a service whose types are known. -/
def ping : SymbolTable :=
  (empty.registerType (some "p") "Pong" { outputPackage := "out.p", name := "Pong" })
    |>.registerService "good.proto"
      (calling "Good" ⟨"Pong", some "p"⟩ ⟨"Empty", some "google.protobuf"⟩)

/-- The same with a service whose types are both unknown. -/
def pingLost : SymbolTable :=
  ping.registerService "lost.proto" (calling "Lost" ⟨"Missing", some "p"⟩ ⟨"Pong", some "q"⟩)

theorem pingLost_all_or_nothing :
    (∀ name ∈ ["good.proto", "none.proto", "good.proto"],
      pingLost.services.find? name = ping.services.find? name) ∧
    pingLost.resolveServices ["good.proto", "none.proto", "good.proto"] =
      ping.resolveServices ["good.proto", "none.proto", "good.proto"] ∧
    pingLost.resolveServices ["good.proto", "lost.proto"] =
      .error (.unresolvedType ⟨"Missing", some "p"⟩) := by
  have hservices : ∀ name ∈ ["good.proto", "none.proto", "good.proto"],
      pingLost.services.find? name = ping.services.find? name := by decide
  refine ⟨hservices, ?_, ?_⟩
  · exact (resolveServices_all_or_nothing ping _).2.2.2 pingLost rfl rfl hservices
  · refine ((resolveServices_all_or_nothing pingLost _).2.2.1 _).2
      ⟨[⟨"Pong", some "p"⟩, ⟨"Empty", some "google.protobuf"⟩], ⟨"Missing", some "p"⟩,
        [⟨"Pong", some "q"⟩], by decide, ?_, by decide⟩
    simp only [List.forall_mem_cons]
    exact ⟨⟨_, by rfl⟩, ⟨_, by rfl⟩, by simp⟩

end SymbolTable

end RpcCatalog
