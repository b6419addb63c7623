import Mathlib.Data.List.Forall2
import RpcCatalog.Proofs.Resolution

/-!
# Converting the types of a service

The types of a service are converted one after another by a converter that may fail and that keeps
a state.

* `outcome`: what comes of an action that may fail, with the state it leaves behind.
* `ConvertsEach`, `FailsWithin`: a converter takes all references of a list one after another, or
  fails on one of them. `outcome_mapM_eq_ok_iff` and `outcome_mapM_eq_error_iff` say that these are
  the two courses of a conversion.
* `Service.SameButTypes`: one service is another but for its types.
* `recording`: a converter that also keeps a record of its calls.
* `Service.mapTypesM_course`: a service is converted reference by reference, up to the first one
  that fails.
-/

set_option autoImplicit false

namespace RpcCatalog

variable {σ τ ε α β γ : Type}

/-! ## Outcomes -/

/-- What comes of an action that may fail, and the state that it leaves behind in either case. -/
def outcome (action : ExceptT ε (StateM σ) α) (s : σ) : Except ε α × σ := action.run.run s

section Outcome

variable {s t : σ} {e : ε}

theorem outcome_pure (a : α) (s : σ) :
    outcome (pure a : ExceptT ε (StateM σ) α) s = (.ok a, s) := rfl

theorem outcome_pure_ne_error (a : α) :
    (outcome (pure a : ExceptT ε (StateM σ) α) s = (.error e, t)) = False :=
  eq_false nofun

theorem outcome_bind (action : ExceptT ε (StateM σ) α) (next : α → ExceptT ε (StateM σ) β)
    (s : σ) :
    outcome (action >>= next) s =
      match outcome action s with
      | (.ok a, t) => outcome (next a) t
      | (.error e, t) => (.error e, t) := by
  change outcome (ExceptT.bind action next) s = _
  unfold outcome ExceptT.bind ExceptT.run ExceptT.mk
  change ((action s).1 |> ExceptT.bindCont next) (action s).2 = _
  change _ = match action s with
    | (.ok a, t) => next a t
    | (.error e, t) => (.error e, t)
  obtain ⟨result, t⟩ := action s
  cases result <;> rfl

theorem outcome_bind_eq_ok_iff {action : ExceptT ε (StateM σ) α}
    {next : α → ExceptT ε (StateM σ) β} {b : β} :
    outcome (action >>= next) s = (.ok b, t) ↔
      ∃ a u, outcome action s = (.ok a, u) ∧ outcome (next a) u = (.ok b, t) := by
  rw [outcome_bind]
  obtain ⟨result, u⟩ := outcome action s
  cases result <;> simp

theorem outcome_bind_eq_error_iff {action : ExceptT ε (StateM σ) α}
    {next : α → ExceptT ε (StateM σ) β} :
    outcome (action >>= next) s = (.error e, t) ↔
      outcome action s = (.error e, t) ∨
        ∃ a u, outcome action s = (.ok a, u) ∧ outcome (next a) u = (.error e, t) := by
  rw [outcome_bind]
  obtain ⟨result, u⟩ := outcome action s
  cases result <;> simp

end Outcome

/-! ## One reference after another -/

section Courses

variable {convert : α → ExceptT ε (StateM σ) β} {s t u : σ} {e : ε} {as as' : List α}
  {bs bs' : List β}

/-- The converter takes the references one after another without a failure, each in the state that
the one before left behind. -/
inductive ConvertsEach (convert : α → ExceptT ε (StateM σ) β) :
    σ → List α → List β → σ → Prop where
  | nil {s : σ} : ConvertsEach convert s [] [] s
  | cons {s u t : σ} {a : α} {b : β} {as : List α} {bs : List β}
    (head : outcome (convert a) s = (.ok b, u)) (tail : ConvertsEach convert u as bs t) :
    ConvertsEach convert s (a :: as) (b :: bs) t

/-- The converter takes some references without a failure and fails on the next one. -/
def FailsWithin (convert : α → ExceptT ε (StateM σ) β) (s : σ) (as : List α) (e : ε) (t : σ) :
    Prop :=
  ∃ front a back bs u, as = front ++ a :: back ∧ ConvertsEach convert s front bs u ∧
    outcome (convert a) u = (.error e, t)

theorem convertsEach_nil_iff : ConvertsEach convert s [] bs t ↔ bs = [] ∧ t = s := by
  constructor
  · intro h
    cases h
    exact ⟨rfl, rfl⟩
  · rintro ⟨rfl, rfl⟩
    exact .nil

theorem convertsEach_cons_iff {a : α} :
    ConvertsEach convert s (a :: as) bs t ↔
      ∃ b u bs', outcome (convert a) s = (.ok b, u) ∧ ConvertsEach convert u as bs' t ∧
        bs = b :: bs' := by
  constructor
  · intro h
    cases h with
    | cons head tail => exact ⟨_, _, _, head, tail, rfl⟩
  · rintro ⟨b, u, bs', head, tail, rfl⟩
    exact .cons head tail

theorem ConvertsEach.length_eq (h : ConvertsEach convert s as bs t) : bs.length = as.length := by
  induction h with
  | nil => rfl
  | cons _ _ ih => rw [List.length_cons, List.length_cons, ih]

theorem ConvertsEach.append (h : ConvertsEach convert s as bs u)
    (h' : ConvertsEach convert u as' bs' t) :
    ConvertsEach convert s (as ++ as') (bs ++ bs') t := by
  induction h with
  | nil => exact h'
  | cons head _ ih => exact .cons head (ih h')

theorem ConvertsEach.exists_append (h : ConvertsEach convert s (as ++ as') bs t) :
    ∃ first rest u, bs = first ++ rest ∧ ConvertsEach convert s as first u ∧
      ConvertsEach convert u as' rest t := by
  induction as generalizing s bs with
  | nil => exact ⟨[], bs, s, rfl, .nil, h⟩
  | cons a as ih =>
    obtain ⟨b, u, bs, head, tail, rfl⟩ := convertsEach_cons_iff.1 h
    obtain ⟨first, rest, v, rfl, hfirst, hrest⟩ := ih tail
    exact ⟨b :: first, rest, v, rfl, .cons head hfirst, hrest⟩

/-- The results tell where the first references end, as there are as many of them. -/
theorem ConvertsEach.of_append (h : ConvertsEach convert s (as ++ as') (bs ++ bs') t)
    (hlength : bs.length = as.length) :
    ∃ u, ConvertsEach convert s as bs u ∧ ConvertsEach convert u as' bs' t := by
  obtain ⟨first, rest, u, hsplit, hfirst, hrest⟩ := h.exists_append
  obtain ⟨rfl, rfl⟩ := List.append_inj hsplit (hlength.trans hfirst.length_eq.symm)
  exact ⟨u, hfirst, hrest⟩

theorem not_failsWithin_nil : ¬ FailsWithin convert s [] e t := by
  rintro ⟨front, a, back, bs, u, hsplit, -⟩
  simp at hsplit

theorem failsWithin_cons_iff {a : α} :
    FailsWithin convert s (a :: as) e t ↔
      outcome (convert a) s = (.error e, t) ∨
        ∃ b u, outcome (convert a) s = (.ok b, u) ∧ FailsWithin convert u as e t := by
  constructor
  · rintro ⟨front, a', back, bs, u, hsplit, hfront, herror⟩
    cases hfront with
    | nil =>
      obtain ⟨rfl, rfl⟩ := List.cons.inj hsplit
      exact .inl herror
    | cons head tail =>
      obtain ⟨rfl, rfl⟩ := List.cons.inj hsplit
      exact .inr ⟨_, _, head, _, a', back, _, u, rfl, tail, herror⟩
  · rintro (herror | ⟨b, u, head, front, a', back, bs, v, rfl, hfront, herror⟩)
    · exact ⟨[], a, as, [], s, rfl, .nil, herror⟩
    · exact ⟨a :: front, a', back, b :: bs, v, rfl, .cons head hfront, herror⟩

theorem failsWithin_append_iff :
    FailsWithin convert s (as ++ as') e t ↔
      FailsWithin convert s as e t ∨
        ∃ bs u, ConvertsEach convert s as bs u ∧ FailsWithin convert u as' e t := by
  induction as generalizing s with
  | nil =>
    simp [not_failsWithin_nil, convertsEach_nil_iff]
  | cons a as ih =>
    rw [List.cons_append, failsWithin_cons_iff, failsWithin_cons_iff]
    simp only [ih, convertsEach_cons_iff]
    constructor
    · rintro (herror | ⟨b, u, head, hfails | ⟨bs, v, hfirst, hfails⟩⟩)
      · exact .inl (.inl herror)
      · exact .inl (.inr ⟨b, u, head, hfails⟩)
      · exact .inr ⟨b :: bs, v, ⟨b, u, bs, head, hfirst, rfl⟩, hfails⟩
    · rintro ((herror | ⟨b, u, head, hfails⟩) | ⟨_, v, ⟨b, u, bs, head, hfirst, rfl⟩, hfails⟩)
      · exact .inl herror
      · exact .inr ⟨b, u, head, .inl hfails⟩
      · exact .inr ⟨b, u, head, .inr ⟨bs, v, hfirst, hfails⟩⟩

theorem outcome_mapM_eq_ok_iff :
    outcome (as.mapM convert) s = (.ok bs, t) ↔ ConvertsEach convert s as bs t := by
  induction as generalizing s t bs with
  | nil =>
    rw [List.mapM_nil, outcome_pure, convertsEach_nil_iff]
    simp [eq_comm]
  | cons a as ih =>
    rw [List.mapM_cons, outcome_bind_eq_ok_iff, convertsEach_cons_iff]
    simp only [outcome_bind_eq_ok_iff, outcome_pure, ih]
    constructor
    · rintro ⟨b, u, head, bs', v, tail, hpure⟩
      cases hpure
      exact ⟨b, u, bs', head, tail, rfl⟩
    · rintro ⟨b, u, bs', head, tail, rfl⟩
      exact ⟨b, u, head, bs', t, tail, rfl⟩

theorem outcome_mapM_eq_error_iff :
    outcome (as.mapM convert) s = (.error e, t) ↔ FailsWithin convert s as e t := by
  induction as generalizing s with
  | nil =>
    rw [List.mapM_nil, outcome_pure]
    simp [not_failsWithin_nil]
  | cons a as ih =>
    rw [List.mapM_cons, outcome_bind_eq_error_iff, failsWithin_cons_iff]
    simp only [outcome_bind_eq_error_iff, outcome_pure_ne_error, and_false, exists_false, or_false,
      ih]

end Courses

/-! ## Methods and services -/

/-- One method is another but for its types, of which it has as many. -/
structure Method.SameButTypes (method : Method α) (converted : Method β) : Prop where
  name : converted.name = method.name
  requestTypes : converted.requestTypes.length = method.requestTypes.length
  comments : converted.comments = method.comments

/-- One service is another but for the types of its methods, which come in the same order. -/
structure Service.SameButTypes (service : Service α) (converted : Service β) : Prop where
  name : converted.name = service.name
  protoPackage : converted.protoPackage = service.protoPackage
  outputPackage : converted.outputPackage = service.outputPackage
  methods : List.Forall₂ Method.SameButTypes service.methods converted.methods
  comments : converted.comments = service.comments
  annotations : converted.annotations = service.annotations

section Services

variable {convert : α → ExceptT ε (StateM σ) β} {s t : σ} {e : ε}

theorem Method.outcome_mapTypesM_eq_ok_iff {method : Method α} {converted : Method β} :
    outcome (method.mapTypesM convert) s = (.ok converted, t) ↔
      ConvertsEach convert s method.references converted.references t ∧
        method.SameButTypes converted := by
  unfold mapTypesM references
  simp only [outcome_bind_eq_ok_iff, outcome_mapM_eq_ok_iff, outcome_pure]
  constructor
  · rintro ⟨requestTypes, u, hrequest, responseType, v, hresponse, hpure⟩
    cases hpure
    exact ⟨hrequest.append (.cons hresponse .nil), rfl, hrequest.length_eq, rfl⟩
  · rintro ⟨heach, hname, hlength, hcomments⟩
    obtain ⟨u, hrequest, hlast⟩ := heach.of_append hlength
    cases hlast with
    | cons hresponse hnil =>
      cases hnil
      refine ⟨_, u, hrequest, _, t, hresponse, ?_⟩
      rw [← hname, ← hcomments]

theorem Method.outcome_mapTypesM_eq_error_iff {method : Method α} :
    outcome (method.mapTypesM convert) s = (.error e, t) ↔
      FailsWithin convert s method.references e t := by
  unfold mapTypesM references
  simp only [outcome_bind_eq_error_iff, outcome_pure_ne_error, outcome_mapM_eq_ok_iff,
    outcome_mapM_eq_error_iff, failsWithin_append_iff, failsWithin_cons_iff, not_failsWithin_nil,
    and_false, exists_false, or_false]

theorem Method.exists_sameButTypes {method : Method α} {bs : List β}
    (h : ConvertsEach convert s method.references bs t) :
    ∃ converted : Method β, converted.references = bs ∧ method.SameButTypes converted := by
  obtain ⟨requestTypes, last, u, rfl, hrequest, hlast⟩ := h.exists_append
  obtain ⟨responseType, v, rest, -, hnil, rfl⟩ := convertsEach_cons_iff.1 hlast
  obtain ⟨rfl, -⟩ := convertsEach_nil_iff.1 hnil
  exact ⟨{ method with requestTypes, responseType }, rfl, rfl, hrequest.length_eq, rfl⟩

/-- Methods are converted one after another exactly if all of their references are. -/
theorem convertsEach_methods_iff {methods : List (Method α)} {converted : List (Method β)} :
    ConvertsEach (Method.mapTypesM convert) s methods converted t ↔
      ConvertsEach convert s (methods.flatMap Method.references)
          (converted.flatMap Method.references) t ∧
        List.Forall₂ Method.SameButTypes methods converted := by
  induction methods generalizing s converted with
  | nil =>
    rw [convertsEach_nil_iff, List.forall₂_nil_left_iff]
    constructor
    · rintro ⟨rfl, rfl⟩
      exact ⟨.nil, rfl⟩
    · rintro ⟨heach, rfl⟩
      exact ⟨rfl, (convertsEach_nil_iff.1 heach).2⟩
  | cons method methods ih =>
    simp only [convertsEach_cons_iff, Method.outcome_mapTypesM_eq_ok_iff, ih,
      List.forall₂_cons_left_iff, List.flatMap_cons]
    constructor
    · rintro ⟨first, u, rest, ⟨hfirst, hsame⟩, ⟨hrest, hsames⟩, rfl⟩
      exact ⟨hfirst.append hrest, first, rest, hsame, hsames, rfl⟩
    · rintro ⟨heach, first, rest, hsame, hsames, rfl⟩
      have hlength : first.references.length = method.references.length := by
        simp [Method.references, hsame.requestTypes]
      obtain ⟨u, hfirst, hrest⟩ := heach.of_append hlength
      exact ⟨first, u, rest, ⟨hfirst, hsame⟩, ⟨hrest, hsames⟩, rfl⟩

theorem failsWithin_methods_iff {methods : List (Method α)} :
    FailsWithin (Method.mapTypesM convert) s methods e t ↔
      FailsWithin convert s (methods.flatMap Method.references) e t := by
  induction methods generalizing s with
  | nil => simp [not_failsWithin_nil]
  | cons method methods ih =>
    rw [failsWithin_cons_iff, List.flatMap_cons, failsWithin_append_iff,
      Method.outcome_mapTypesM_eq_error_iff]
    simp only [Method.outcome_mapTypesM_eq_ok_iff, ih]
    refine or_congr_right ⟨?_, ?_⟩
    · rintro ⟨converted, u, ⟨heach, -⟩, hfails⟩
      exact ⟨converted.references, u, heach, hfails⟩
    · rintro ⟨bs, u, heach, hfails⟩
      obtain ⟨converted, rfl, hsame⟩ := Method.exists_sameButTypes heach
      exact ⟨converted, u, ⟨heach, hsame⟩, hfails⟩

theorem Service.outcome_mapTypesM_eq_ok_iff {service : Service α} {converted : Service β} :
    outcome (service.mapTypesM convert) s = (.ok converted, t) ↔
      ConvertsEach convert s service.references converted.references t ∧
        service.SameButTypes converted := by
  unfold mapTypesM references
  simp only [outcome_bind_eq_ok_iff, outcome_mapM_eq_ok_iff, outcome_pure,
    convertsEach_methods_iff]
  constructor
  · rintro ⟨methods, u, ⟨heach, hsames⟩, hpure⟩
    cases hpure
    exact ⟨heach, rfl, rfl, rfl, hsames, rfl, rfl⟩
  · rintro ⟨heach, hsame⟩
    refine ⟨_, t, ⟨heach, hsame.methods⟩, ?_⟩
    rw [← hsame.name, ← hsame.protoPackage, ← hsame.outputPackage, ← hsame.comments,
      ← hsame.annotations]

theorem Service.outcome_mapTypesM_eq_error_iff {service : Service α} :
    outcome (service.mapTypesM convert) s = (.error e, t) ↔
      FailsWithin convert s service.references e t := by
  unfold mapTypesM references
  simp only [outcome_bind_eq_error_iff, outcome_pure_ne_error, outcome_mapM_eq_error_iff,
    failsWithin_methods_iff, and_false, exists_false, or_false]

end Services

/-! ## Calls -/

/-- The converter with a record of the references that it was called on, in order. -/
def recording (convert : α → ExceptT ε (StateM σ) β) : α → ExceptT ε (StateM (σ × List α)) β :=
  fun a (s, calls) =>
    let (result, t) := outcome (convert a) s
    (result, (t, calls ++ [a]))

section Recording

variable {convert : α → ExceptT ε (StateM σ) β} {s t : σ} {e : ε} {as calls : List α}
  {bs : List β}

theorem outcome_recording {a : α} {result : Except ε β}
    (h : outcome (convert a) s = (result, t)) (calls : List α) :
    outcome (recording convert a) (s, calls) = (result, (t, calls ++ [a])) := by
  change (let (result, t) := outcome (convert a) s; (result, (t, calls ++ [a]))) = _
  rw [h]

theorem ConvertsEach.recording (h : ConvertsEach convert s as bs t) (calls : List α) :
    ConvertsEach (recording convert) (s, calls) as bs (t, calls ++ as) := by
  induction h generalizing calls with
  | nil =>
    rw [List.append_nil]
    exact .nil
  | @cons s u t a b as bs head _ ih =>
    have hrest := ih (calls ++ [a])
    rw [List.append_assoc, List.singleton_append] at hrest
    exact .cons (outcome_recording head calls) hrest

end Recording

/-! ## Converters that do not fail -/

section Total

variable {f : α → StateM σ β} {g : β → StateM τ γ}

/-- A converter that never fails. -/
def total (f : α → StateM σ β) : α → ExceptT ε (StateM σ) β := fun a => ExceptT.lift (f a)

/-- One converter after the other, each with its own state. -/
def inTurn (f : α → StateM σ β) (g : β → StateM τ γ) : α → StateM (σ × τ) γ :=
  fun a (s, t) =>
    let (b, s') := (f a).run s
    let (c, t') := (g b).run t
    (c, (s', t'))

theorem outcome_total (f : α → StateM σ β) (a : α) (s : σ) :
    outcome (total f a : ExceptT ε (StateM σ) β) s = (.ok ((f a).run s).1, ((f a).run s).2) := rfl

theorem not_failsWithin_total {s t : σ} {as : List α} {e : ε} :
    ¬ FailsWithin (total f) s as e t := by
  rintro ⟨front, a, back, bs, u, -, -, herror⟩
  rw [outcome_total] at herror
  cases herror

theorem ConvertsEach.inTurn {s s' : σ} {t t' : τ} {as : List α} {bs : List β} {cs : List γ}
    (h : ConvertsEach (total f : α → ExceptT ε (StateM σ) β) s as bs s')
    (h' : ConvertsEach (total g : β → ExceptT ε (StateM τ) γ) t bs cs t') :
    ConvertsEach (total (inTurn f g) : α → ExceptT ε (StateM (σ × τ)) γ) (s, t) as cs
      (s', t') := by
  induction h generalizing t cs with
  | nil =>
    obtain ⟨rfl, rfl⟩ := convertsEach_nil_iff.1 h'
    exact .nil
  | cons head _ ih =>
    obtain ⟨c, u, cs, head', tail', rfl⟩ := convertsEach_cons_iff.1 h'
    refine .cons ?_ (ih tail')
    cases head
    cases head'
    rfl

theorem Service.exists_outcome_total (service : Service α) (f : α → StateM σ β) (s : σ) :
    ∃ converted t,
      outcome (service.mapTypesM (total f : α → ExceptT ε (StateM σ) β)) s = (.ok converted, t) := by
  cases h : outcome (service.mapTypesM (total f : α → ExceptT ε (StateM σ) β)) s with
  | mk result t =>
    cases result with
    | ok converted => exact ⟨converted, t, rfl⟩
    | error e => exact absurd (outcome_mapTypesM_eq_error_iff.1 h) not_failsWithin_total

end Total

theorem Method.SameButTypes.trans {first : Method α} {second : Method β} {third : Method γ}
    (h : first.SameButTypes second) (h' : second.SameButTypes third) : first.SameButTypes third :=
  ⟨h'.name.trans h.name, h'.requestTypes.trans h.requestTypes, h'.comments.trans h.comments⟩

theorem Service.SameButTypes.trans {first : Service α} {second : Service β} {third : Service γ}
    (h : first.SameButTypes second) (h' : second.SameButTypes third) :
    first.SameButTypes third where
  name := h'.name.trans h.name
  protoPackage := h'.protoPackage.trans h.protoPackage
  outputPackage := h'.outputPackage.trans h.outputPackage
  methods := .comp (fun _ _ _ hfirst hsecond => hfirst.trans hsecond) h.methods h'.methods
  comments := h'.comments.trans h.comments
  annotations := h'.annotations.trans h.annotations

theorem Service.mapTypesM_pure {m : Type → Type} [Monad m] [LawfulMonad m] (service : Service α) :
    service.mapTypesM (pure : α → m α) = pure service := by
  have hmethod : Method.mapTypesM (pure : α → m α) = pure := by
    funext method
    have hrequest : method.requestTypes.mapM (pure : α → m α) = pure method.requestTypes := by
      simpa using List.mapM_pure (m := m) (l := method.requestTypes) (f := id)
    simp [Method.mapTypesM, hrequest]
  have hmethods : service.methods.mapM (pure : Method α → m (Method α)) = pure service.methods := by
    simpa using List.mapM_pure (m := m) (l := service.methods) (f := id)
  simp [Service.mapTypesM, hmethod, hmethods]

/-- The references of a service are converted in order, method by method, each in the state that the
one before left behind. If none fails, they are replaced one by one and all else stays; otherwise
the conversion ends at the first that fails, with its error and in the state that it left behind.
The converter is called on each reference up to there, and on none twice. Converting to themselves
gives the references back, and two converters that never fail come to the same in turn as one after
the other for each reference. -/
theorem Service.mapTypesM_course (service : Service α) (convert : α → ExceptT ε (StateM σ) β)
    (s : σ) :
    (∀ converted t, outcome (service.mapTypesM convert) s = (.ok converted, t) ↔
      ConvertsEach convert s service.references converted.references t ∧
        service.SameButTypes converted) ∧
    (∀ e t, outcome (service.mapTypesM convert) s = (.error e, t) ↔
      ∃ front reference back results u,
        service.references = front ++ reference :: back ∧
          ConvertsEach convert s front results u ∧
            outcome (convert reference) u = (.error e, t)) ∧
    (∀ converted t, outcome (service.mapTypesM convert) s = (.ok converted, t) →
      outcome (service.mapTypesM (recording convert)) (s, []) =
        (.ok converted, (t, service.references))) ∧
    (∀ front reference back results u e t,
      service.references = front ++ reference :: back →
        ConvertsEach convert s front results u →
          outcome (convert reference) u = (.error e, t) →
            outcome (service.mapTypesM (recording convert)) (s, []) =
              (.error e, (t, front ++ [reference]))) ∧
    outcome (service.mapTypesM (pure : α → ExceptT ε (StateM σ) α)) s = (.ok service, s) ∧
    ∀ (τ γ : Type) (f : α → StateM σ β) (g : β → StateM τ γ) (t : τ), ∃ middle final s' t',
      outcome (service.mapTypesM (total f : α → ExceptT ε (StateM σ) β)) s = (.ok middle, s') ∧
        outcome (middle.mapTypesM (total g : β → ExceptT ε (StateM τ) γ)) t = (.ok final, t') ∧
          outcome (service.mapTypesM (total (inTurn f g) : α → ExceptT ε (StateM (σ × τ)) γ))
            (s, t) = (.ok final, (s', t')) := by
  refine ⟨fun _ _ => outcome_mapTypesM_eq_ok_iff, fun _ _ => outcome_mapTypesM_eq_error_iff,
    fun converted t h => ?_, fun front reference back results u e t hsplit hfront herror => ?_, ?_,
    fun τ γ f g t => ?_⟩
  · obtain ⟨heach, hsame⟩ := outcome_mapTypesM_eq_ok_iff.1 h
    exact outcome_mapTypesM_eq_ok_iff.2 ⟨heach.recording [], hsame⟩
  · exact outcome_mapTypesM_eq_error_iff.2 ⟨front, reference, back, results, (u, front), hsplit,
      hfront.recording [], outcome_recording herror front⟩
  · rw [mapTypesM_pure, outcome_pure]
  · obtain ⟨middle, s', hfirst⟩ : ∃ middle s',
        outcome (service.mapTypesM (total f : α → ExceptT ε (StateM σ) β)) s = (.ok middle, s') :=
      service.exists_outcome_total f s
    obtain ⟨final, t', hsecond⟩ : ∃ final t',
        outcome (middle.mapTypesM (total g : β → ExceptT ε (StateM τ) γ)) t = (.ok final, t') :=
      middle.exists_outcome_total g t
    obtain ⟨heach, hsame⟩ := outcome_mapTypesM_eq_ok_iff.1 hfirst
    obtain ⟨heach', hsame'⟩ := outcome_mapTypesM_eq_ok_iff.1 hsecond
    exact ⟨middle, final, s', t', hfirst, hsecond,
      outcome_mapTypesM_eq_ok_iff.2 ⟨heach.inTurn heach', hsame.trans hsame'⟩⟩

/-- Two calls, of which the second names a type that is not there first. -/
def pingPong : Service TypeReference where
  name := "Orders"
  protoPackage := some "orders"
  outputPackage := "com.orders"
  methods :=
    [{ name := "Ping", requestTypes := [⟨"Ack", some "orders"⟩]
       responseType := ⟨"Nack", some "orders"⟩ },
      { name := "Pong", requestTypes := [⟨"Thing", some "missing"⟩]
        responseType := ⟨"Ack", some "orders"⟩ }]

/-- Numbers the types of one package and fails on all others. -/
def numbering (reference : TypeReference) : ExceptT String (StateM Nat) Nat := do
  let number ← modifyGet fun number => (number, number + 1)
  if reference.package = some "orders" then return number else throw reference.name

theorem pingPong_course :
    outcome (pingPong.mapTypesM (recording numbering)) (0, []) =
      (.error "Thing", (3,
        [⟨"Ack", some "orders"⟩, ⟨"Nack", some "orders"⟩, ⟨"Thing", some "missing"⟩])) := by
  have hfront : ConvertsEach numbering 0 [⟨"Ack", some "orders"⟩, ⟨"Nack", some "orders"⟩]
      [0, 1] 2 :=
    .cons rfl (.cons rfl .nil)
  exact (pingPong.mapTypesM_course numbering 0).2.2.2.1 _ ⟨"Thing", some "missing"⟩
    [⟨"Ack", some "orders"⟩] _ 2 "Thing" 3 rfl hfront rfl

end RpcCatalog
