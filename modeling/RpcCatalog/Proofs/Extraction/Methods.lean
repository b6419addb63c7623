import Mathlib
import RpcCatalog.Extraction
import RpcCatalog.Proofs.Lists

/-!
# Methods and the comments in front of their calls

Each call of a service block becomes one method, and the comments of a method are those that stand
right in front of its call.

* `Attached`: a comment belongs to a call if there are comments only from the one up to the other.
* `IsMethodOf`: what a method has from the call at a position of a block.
* `HoldsRun`: the pending comments are the run of comments at the end of what was read.
* `methodsOf_attached`: the methods of a block are those of its calls, in order; a comment belongs
  to one call at most, and to none if something else comes after its run.
-/

set_option autoImplicit false

namespace RpcCatalog

namespace ServiceItem

def comment? : ServiceItem → Option String
  | .comment text => some text
  | _ => none

def isCall : ServiceItem → Bool
  | .rpc _ => true
  | _ => false

theorem exists_eq_comment_iff {item : ServiceItem} :
    (∃ text, item = .comment text) ↔ item.comment?.isSome := by
  cases item <;> simp [comment?]

end ServiceItem

/-! ## Comments and calls -/

/-- The comment at a position belongs to the call at another: from the one up to the other there are
comments only. -/
structure Attached (items : List ServiceItem) (position call : Nat) : Prop where
  before : position < call
  isCall : ∃ signature, items[call]? = some (.rpc signature)
  unbroken : ∀ k, position ≤ k → k < call → ∃ text, items[k]? = some (.comment text)

/-- What a method has from the call at a position of a block. Its comments are what the comments say
that belong to the call, in order. -/
structure IsMethodOf (package : Option String) (items : List ServiceItem) (call : Nat)
    (method : Method TypeReference) : Prop where
  signature : ∃ signature, items[call]? = some (.rpc signature) ∧ method.name = signature.name ∧
    method.requestTypes = [.qualify signature.requestType package] ∧
    method.responseType = .qualify signature.responseType package
  comments : ∃ start ≤ call,
    (∀ position, Attached items position call ↔ start ≤ position ∧ position < call) ∧
    method.comments =
      (((items.take call).drop start).filterMap ServiceItem.comment?).map commentText

section Attached

variable {items : List ServiceItem} {position call call' : Nat}

theorem Attached.call_le (h : Attached items position call) (h' : Attached items position call') :
    call ≤ call' := by
  by_contra hlt
  obtain ⟨text, hcomment⟩ := h.unbroken call' (Nat.le_of_lt h'.before) (Nat.lt_of_not_le hlt)
  obtain ⟨signature, hcall⟩ := h'.isCall
  rw [hcall] at hcomment
  cases hcomment

/-- A comment belongs to one call at most. -/
theorem Attached.call_eq (h : Attached items position call) (h' : Attached items position call') :
    call = call' :=
  Nat.le_antisymm (h.call_le h') (h'.call_le h)

/-- A comment belongs to a call if the first item behind it that is no comment is one. -/
theorem exists_attached_iff {text : String} (h : items[position]? = some (.comment text)) :
    (∃ call, Attached items position call) ↔ ∃ signature,
      (items.drop position).find? (fun item => item.comment?.isNone) = some (.rpc signature) := by
  simp only [List.find?_eq_some_iff_getElem]
  constructor
  · rintro ⟨call, hbefore, ⟨signature, hcall⟩, hunbroken⟩
    obtain ⟨hlength, hcall⟩ := List.getElem?_eq_some_iff.1 hcall
    have hindex : position + (call - position) = call := by omega
    refine ⟨signature, rfl, call - position, by rw [List.length_drop]; omega, ?_, fun j hj => ?_⟩
    · simp only [List.getElem_drop, hindex, hcall]
    · obtain ⟨text', hcomment⟩ := hunbroken (position + j) (by omega) (by omega)
      obtain ⟨_, hcomment⟩ := List.getElem?_eq_some_iff.1 hcomment
      simp only [List.getElem_drop, hcomment, ServiceItem.comment?, Option.isNone_some,
        Bool.not_false]
  · rintro ⟨signature, -, n, hn, hcall, hunbroken⟩
    rw [List.length_drop] at hn
    rw [List.getElem_drop] at hcall
    have hpos : n ≠ 0 := by
      rintro rfl
      obtain ⟨_, h⟩ := List.getElem?_eq_some_iff.1 h
      exact ServiceItem.noConfusion (h.symm.trans hcall)
    refine ⟨position + n, by omega, ⟨signature, ?_⟩, fun k hk hk' => ?_⟩
    · rw [List.getElem?_eq_getElem (by omega), hcall]
    · have hindex : position + (k - position) = k := by omega
      have hcomment := hunbroken (k - position) (by omega)
      simp only [List.getElem_drop, hindex, Bool.not_eq_eq_eq_not, Bool.not_true,
        Option.isNone_eq_false_iff] at hcomment
      obtain ⟨text', htext⟩ := ServiceItem.exists_eq_comment_iff.2 hcomment
      exact ⟨text', by rw [List.getElem?_eq_getElem (by omega), htext]⟩

end Attached

/-! ## Pending comments -/

/-- The pending comments are what the comments say that a front of a block ends with, back to the
last item that is no comment. -/
inductive HoldsRun : List ServiceItem → PendingComments → Prop where
  | intro {before run : List ServiceItem} (unbroken : ∀ item ∈ run, ∃ text, item = .comment text)
    (maximal : ∀ text, before.getLast? ≠ some (.comment text)) :
    HoldsRun (before ++ run) ⟨(run.filterMap ServiceItem.comment?).map commentText⟩

section HoldsRun

variable {package : Option String} {front : List ServiceItem} {pending : PendingComments}

theorem holdsRun_nil : HoldsRun [] .empty :=
  @HoldsRun.intro [] [] (fun _ h => by cases h) fun _ h => by cases h

theorem HoldsRun.push (h : HoldsRun front pending) (text : String) :
    HoldsRun (front ++ [.comment text]) (pending.push text) := by
  obtain ⟨unbroken, maximal⟩ := h
  rename_i before run
  have hrun : ∀ item ∈ run ++ [.comment text], ∃ text, item = ServiceItem.comment text :=
    List.forall_mem_append.2 ⟨unbroken, fun item hitem => ⟨text, List.mem_singleton.1 hitem⟩⟩
  have hpush := HoldsRun.intro hrun maximal
  simpa [PendingComments.push, ServiceItem.comment?] using hpush

theorem holdsRun_concat (front : List ServiceItem) {item : ServiceItem}
    (h : ∀ text, item ≠ .comment text) : HoldsRun (front ++ [item]) .empty := by
  have hempty : HoldsRun ((front ++ [item]) ++ []) ⟨[]⟩ :=
    .intro (fun _ h => by cases h) fun text hlast => h text (by simpa using hlast)
  rwa [List.append_nil] at hempty

/-- A call takes the comments that are pending in front of it. -/
theorem HoldsRun.isMethodOf (h : HoldsRun front pending) (signature : RpcSignature)
    (back : List ServiceItem) :
    IsMethodOf package (front ++ .rpc signature :: back) front.length
      { name := signature.name
        requestTypes := [.qualify signature.requestType package]
        responseType := .qualify signature.responseType package
        comments := pending.texts } := by
  obtain ⟨unbroken, maximal⟩ := h
  rename_i before run
  have hcall : ((before ++ run) ++ ServiceItem.rpc signature :: back)[(before ++ run).length]? =
      some (.rpc signature) := by
    simp
  have hrun : ((before ++ run ++ .rpc signature :: back).take (before ++ run).length).drop
      before.length = run := by
    rw [List.take_left, List.drop_left]
  refine ⟨⟨signature, hcall, rfl, rfl, rfl⟩, before.length, by simp, fun position => ?_, by
    rw [hrun]⟩
  constructor
  · intro h
    refine ⟨?_, h.before⟩
    by_contra hlt
    -- Else the item that the run stops at would be a comment itself.
    have hlength : before.length - 1 < before.length := by omega
    obtain ⟨text, htext⟩ := h.unbroken (before.length - 1) (by omega) (by simp; omega)
    rw [List.append_assoc, List.getElem?_append_left hlength] at htext
    exact maximal text (by rw [List.getLast?_eq_getElem?, htext])
  · rintro ⟨hstart, hbefore⟩
    refine ⟨hbefore, ⟨signature, hcall⟩, fun k hk hk' => ?_⟩
    rw [List.length_append] at hk'
    have hrun : k - before.length < run.length := by omega
    obtain ⟨text, htext⟩ := unbroken run[k - before.length] (List.getElem_mem hrun)
    refine ⟨text, ?_⟩
    rw [List.append_assoc, List.getElem?_append_right (by omega), List.getElem?_append_left hrun,
      List.getElem?_eq_getElem hrun, htext]

/-- The induction is on the items still to be read; what is read lengthens the run of comments that
are pending, or ends it. -/
theorem HoldsRun.forall₂_methodsFrom (h : HoldsRun front pending) (items : List ServiceItem) :
    List.Forall₂ (IsMethodOf package (front ++ items))
      (items.findIdxs ServiceItem.isCall front.length) (methodsFrom package pending items) := by
  induction items generalizing front pending with
  | nil => exact .nil
  | cons item items ih =>
    have hnext : ∀ {pending'}, HoldsRun (front ++ [item]) pending' →
        List.Forall₂ (IsMethodOf package (front ++ item :: items))
          (items.findIdxs ServiceItem.isCall (front.length + 1))
          (methodsFrom package pending' items) := by
      intro pending' h'
      have hrest := ih h'
      rwa [List.append_assoc, List.singleton_append, List.length_append,
        List.length_singleton] at hrest
    rw [List.findIdxs_cons]
    cases item with
    | comment text => exact hnext (h.push text)
    | rpc signature =>
      exact .cons (h.isMethodOf signature items)
        (hnext (holdsRun_concat front fun text heq => by cases heq))
    | other => exact hnext (holdsRun_concat front fun text heq => by cases heq)

end HoldsRun

theorem isMethodOf_methodsOf (package : Option String) (items : List ServiceItem) :
    List.Forall₂ (IsMethodOf package items) (items.findIdxs ServiceItem.isCall)
      (methodsOf package items) :=
  holdsRun_nil.forall₂_methodsFrom items

/-- A call has one request type; its types are seen from the package of the file. -/
theorem methodsOf_types {package : Option String} {items : List ServiceItem}
    {method : Method TypeReference} (h : method ∈ methodsOf package items) :
    ∃ signature, .rpc signature ∈ items ∧
      method.requestTypes = [.qualify signature.requestType package] ∧
      method.responseType = .qualify signature.responseType package := by
  obtain ⟨call, -, hmethod⟩ := (isMethodOf_methodsOf package items).exists_of_mem_right h
  obtain ⟨signature, hcall, -, hrequest, hresponse⟩ := hmethod.signature
  exact ⟨signature, List.mem_of_getElem? hcall, hrequest, hresponse⟩

/-- No comment goes to two methods, and the comments of the methods keep their order. -/
theorem comments_methodsFrom_sublist (package : Option String) (pending : PendingComments)
    (items : List ServiceItem) :
    ((methodsFrom package pending items).flatMap Method.comments).Sublist
      (pending.texts ++ (items.filterMap ServiceItem.comment?).map commentText) := by
  induction items generalizing pending with
  | nil => exact List.nil_sublist _
  | cons item items ih =>
    cases item with
    | comment text =>
      have hrest := ih (pending.push text)
      rwa [PendingComments.push, List.append_assoc] at hrest
    | rpc signature => exact (List.Sublist.refl pending.texts).append (ih .empty)
    | other => exact (ih .empty).trans (List.sublist_append_right _ _)

/-- A service block has one method for each call, in order, with the name and the types of the call
and with what the comments say that belong to it. These are the unbroken run of comments right in
front of the call. A comment belongs to no two calls, and it belongs to one exactly if the first
item behind it that is no comment is a call. -/
theorem methodsOf_attached (package : Option String) (items : List ServiceItem) :
    List.Forall₂ (IsMethodOf package items) (items.findIdxs ServiceItem.isCall)
      (methodsOf package items) ∧
    (∀ position call call', Attached items position call → Attached items position call' →
      call = call') ∧
    (∀ position text, items[position]? = some (.comment text) →
      ((∃ call, Attached items position call) ↔ ∃ signature,
        (items.drop position).find? (fun item => item.comment?.isNone) =
          some (.rpc signature))) ∧
    ((methodsOf package items).flatMap Method.comments).Sublist
      ((items.filterMap ServiceItem.comment?).map commentText) := by
  exact ⟨isMethodOf_methodsOf package items, fun _ _ _ h h' => h.call_eq h',
    fun _ _ h => exists_attached_iff h, comments_methodsFrom_sublist package .empty items⟩

end RpcCatalog
