import Ascendance.Core.Number

/-!
# Transaction errors

A thrown value is a primitive or a reference to an object, and an object may
name another value as its cause. Classification walks the chain of causes, which
may be cyclic, and remembers the objects it has visited.
-/

namespace Ascendance.UnitOfWork

open Ascendance.Core

/-- A code carried by an error. -/
inductive ErrorCode
  | number (n : JsNumber)
  | text (s : String)
  deriving DecidableEq, Repr

/-- What the classification reads of an error object. -/
structure ErrorObject where
  /-- The labels, where `errorLabels` is an array. -/
  errorLabels : Option (List String)
  /-- The code, where it is a number or a string. -/
  code : Option ErrorCode
  codeName : Option String
  /-- The object that the property `cause` refers to. -/
  cause : Option Nat
  deriving DecidableEq, Repr

/-- A thrown value with the objects it can reach. -/
structure Thrown where
  /-- The objects, referred to by their positions. -/
  objects : List ErrorObject
  /-- The object that was thrown, or none for a primitive. -/
  value : Option Nat
  /-- The value is an instance of `AmbiguousTransactionCommitError`. -/
  ambiguous : Bool
  deriving DecidableEq, Repr

/-- What the classification collects. -/
structure TransactionErrorEvidence where
  hasMaxTimeMSExpired : Bool
  hasTransientTransactionError : Bool
  hasUnknownTransactionCommitResult : Bool
  deriving DecidableEq, Repr

/-- An object carries a label. -/
def ErrorObject.hasLabel (o : ErrorObject) (label : String) : Bool :=
  match o.errorLabels with
  | some labels => labels.contains label
  | none => false

/-- An object says that a time limit was exceeded. -/
def ErrorObject.maxTimeMSExpired (o : ErrorObject) : Bool :=
  o.code == some (.number (.finite 50)) || o.codeName == some "MaxTimeMSExpired"

/-- Add what one object says. -/
def TransactionErrorEvidence.inspect (evidence : TransactionErrorEvidence) (o : ErrorObject) :
    TransactionErrorEvidence where
  hasMaxTimeMSExpired := evidence.hasMaxTimeMSExpired || o.maxTimeMSExpired
  hasTransientTransactionError :=
    evidence.hasTransientTransactionError || o.hasLabel "TransientTransactionError"
  hasUnknownTransactionCommitResult :=
    evidence.hasUnknownTransactionCommitResult || o.hasLabel "UnknownTransactionCommitResult"

/-- The objects that the loop visits: it follows the causes until it meets a
primitive or an object it has visited. -/
def causeChain (objects : List ErrorObject) : Nat → List Nat → Option Nat → List ErrorObject
  | 0, _, _ => []
  | _ + 1, _, none => []
  | fuel + 1, visited, some i =>
    if i ∈ visited then []
    else match objects[i]? with
      | none => []
      | some o => o :: causeChain objects fuel (i :: visited) o.cause

/-- Collect the evidence along the chain of causes. No object is visited twice,
so the number of objects bounds the loop. -/
def inspectTransactionErrorCauseChain (error : Thrown) : TransactionErrorEvidence :=
  (causeChain error.objects (error.objects.length + 1) [] error.value).foldl
    TransactionErrorEvidence.inspect ⟨false, false, false⟩

/-- The commit may or may not have taken effect. -/
def isUnknownTransactionCommitResult (error : Thrown) : Bool :=
  (inspectTransactionErrorCauseChain error).hasUnknownTransactionCommitResult

/-- The whole transaction may be tried again. -/
def isTransientTransactionError (error : Thrown) : Bool :=
  (inspectTransactionErrorCauseChain error).hasTransientTransactionError

/-- The server gave up on a time limit. -/
def isMaxTimeMSExpiredError (error : Thrown) : Bool :=
  (inspectTransactionErrorCauseChain error).hasMaxTimeMSExpired

/-- A body error after which the body may be run again. -/
def isRetryableTransactionBodyError (error : Thrown) : Bool :=
  let evidence := inspectTransactionErrorCauseChain error
  !evidence.hasUnknownTransactionCommitResult && evidence.hasTransientTransactionError

/-- An error that reports an unresolved commit, with the last error as its cause. -/
def ambiguousTransactionCommitError (cause : Thrown) : Thrown where
  objects := cause.objects ++ [⟨none, none, none, cause.value⟩]
  value := some cause.objects.length
  ambiguous := true

/-- A plain error object without labels, code or cause. -/
def plainError : Thrown := ⟨[⟨none, none, none, none⟩], some 0, false⟩

/-- An object on the chain of causes of a thrown value. -/
inductive OnChain (error : Thrown) : Nat → Prop
  | thrown {i : Nat} (h : error.value = some i) : OnChain error i
  | cause {i j : Nat} {o : ErrorObject} (h : OnChain error i) (ho : error.objects[i]? = some o)
      (hc : o.cause = some j) : OnChain error j

/-- An object that the chain of causes refers to. -/
def Chained (error : Thrown) (o : ErrorObject) : Prop :=
  ∃ i, OnChain error i ∧ error.objects[i]? = some o

/-- The visited positions and the next one make up the whole chain so far. -/
private structure Walk (error : Thrown) (visited : List Nat) (current : Option Nat) : Prop where
  distinct : visited.Nodup
  stored : ∀ i ∈ visited, i < error.objects.length
  onChain : ∀ i ∈ visited, OnChain error i
  next : ∀ i, current = some i → OnChain error i
  start : ∀ i, error.value = some i → i ∈ visited ∨ current = some i
  closed : ∀ i ∈ visited, ∀ o, error.objects[i]? = some o → ∀ j, o.cause = some j →
    j ∈ visited ∨ current = some j

/-- A walk visits each object once. -/
private theorem Walk.length_le {error : Thrown} {visited : List Nat} {current : Option Nat}
    (h : Walk error visited current) : visited.length ≤ error.objects.length := by
  have hsub : visited ⊆ List.range error.objects.length := fun i hi =>
    List.mem_range.mpr (h.stored i hi)
  have hle := (List.subperm_of_subset h.distinct hsub).length_le
  rwa [List.length_range] at hle

/-- A walk goes on to the cause. -/
private theorem Walk.step {error : Thrown} {visited : List Nat} {i : Nat} {o : ErrorObject}
    (h : Walk error visited (some i)) (hi : i ∉ visited) (ho : error.objects[i]? = some o) :
    Walk error (i :: visited) o.cause := by
  have hchain := h.next i rfl
  refine ⟨List.nodup_cons.mpr ⟨hi, h.distinct⟩, ?_, ?_, ?_, ?_, ?_⟩
  · intro j hj
    rcases List.mem_cons.mp hj with rfl | hj
    · exact (List.getElem?_eq_some_iff.mp ho).1
    · exact h.stored j hj
  · intro j hj
    rcases List.mem_cons.mp hj with rfl | hj
    · exact hchain
    · exact h.onChain j hj
  · intro j hj
    exact .cause hchain ho hj
  · intro j hj
    rcases h.start j hj with hv | hc
    · exact Or.inl (List.mem_cons_of_mem _ hv)
    · obtain rfl := Option.some.inj hc
      exact Or.inl List.mem_cons_self
  · intro j hj p hp k hk
    rcases List.mem_cons.mp hj with rfl | hj
    · obtain rfl : o = p := Option.some.inj (ho.symm.trans hp)
      exact Or.inr hk
    · rcases h.closed j hj p hp k hk with hv | hc
      · exact Or.inl (List.mem_cons_of_mem _ hv)
      · obtain rfl := Option.some.inj hc
        exact Or.inl List.mem_cons_self

/-- When the walk ends, every object of the chain has been visited. -/
private theorem Walk.covers {error : Thrown} {visited : List Nat} {current : Option Nat}
    (h : Walk error visited current)
    (hend : ∀ i, current = some i → i ∈ visited ∨ error.objects[i]? = none) {i : Nat}
    (hi : OnChain error i) : i ∈ visited ∨ error.objects[i]? = none := by
  induction hi with
  | thrown hv =>
    rcases h.start _ hv with hm | hc
    · exact Or.inl hm
    · exact hend _ hc
  | @cause i j o _ ho hc ih =>
    rcases ih with hm | hn
    · rcases h.closed i hm o ho j hc with hm' | hcur
      · exact Or.inl hm'
      · exact hend j hcur
    · exact absurd (hn.symm.trans ho) (by simp)

/-- A walk that has come to its end has visited exactly the chain. -/
private theorem Walk.done {error : Thrown} {visited : List Nat} {current : Option Nat}
    (h : Walk error visited current)
    (hend : ∀ i, current = some i → i ∈ visited ∨ error.objects[i]? = none) (o : ErrorObject) :
    (∃ i ∈ visited, error.objects[i]? = some o) ↔
      Chained error o := by
  constructor
  · rintro ⟨i, hi, ho⟩
    exact ⟨i, h.onChain i hi, ho⟩
  · rintro ⟨i, hi, ho⟩
    rcases h.covers hend hi with hm | hn
    · exact ⟨i, hm, ho⟩
    · exact absurd (hn.symm.trans ho) (by simp)

/-- From a walk under way, the rest of the loop visits what is left of the chain. -/
private theorem mem_causeChain_of_walk {error : Thrown} {visited : List Nat} {current : Option Nat}
    (h : Walk error visited current) {fuel : Nat}
    (hf : error.objects.length + 1 ≤ visited.length + fuel) (o : ErrorObject) :
    (o ∈ causeChain error.objects fuel visited current ∨
        ∃ i ∈ visited, error.objects[i]? = some o) ↔
      Chained error o := by
  induction fuel generalizing visited current with
  | zero =>
    have hle := h.length_le
    omega
  | succ fuel ih =>
    cases current with
    | none => simpa only [causeChain, List.not_mem_nil, false_or] using h.done (by simp) o
    | some i =>
      by_cases hi : i ∈ visited
      · simp only [causeChain, if_pos hi, List.not_mem_nil, false_or]
        exact h.done (by rintro _ ⟨⟩; exact Or.inl hi) o
      · cases ho : error.objects[i]? with
        | none =>
          simp only [causeChain, if_neg hi, ho, List.not_mem_nil, false_or]
          exact h.done (by rintro _ ⟨⟩; exact Or.inr ho) o
        | some p =>
          simp only [causeChain, if_neg hi, ho]
          have hw := h.step hi ho
          rw [← ih hw (by simp only [List.length_cons]; omega)]
          simp only [List.mem_cons]
          constructor
          · rintro ((rfl | hm) | ⟨j, hj, hp⟩)
            · exact Or.inr ⟨i, Or.inl rfl, ho⟩
            · exact Or.inl hm
            · exact Or.inr ⟨j, Or.inr hj, hp⟩
          · rintro (hm | ⟨j, rfl | hj, hp⟩)
            · exact Or.inl (Or.inr hm)
            · exact Or.inl (Or.inl (Option.some.inj (hp.symm.trans ho)))
            · exact Or.inr ⟨j, hj, hp⟩

/-- The loop visits exactly the objects on the chain of causes, cyclic or not. -/
theorem mem_causeChain (error : Thrown) (o : ErrorObject) :
    o ∈ causeChain error.objects (error.objects.length + 1) [] error.value ↔
      Chained error o := by
  have hw : Walk error [] error.value :=
    ⟨List.nodup_nil, by simp, by simp, fun _ h => .thrown h, fun _ h => Or.inr h, by simp⟩
  have hf : error.objects.length + 1 ≤ ([] : List Nat).length + (error.objects.length + 1) := by
    simp
  rw [← mem_causeChain_of_walk hw hf o]
  simp

/-- A flag of the evidence is set when one object shows it. -/
private theorem foldl_inspect_flag (flag : TransactionErrorEvidence → Bool)
    (shows : ErrorObject → Bool)
    (hflag : ∀ evidence o, flag (TransactionErrorEvidence.inspect evidence o) =
      (flag evidence || shows o)) (l : List ErrorObject) (evidence : TransactionErrorEvidence) :
    flag (l.foldl TransactionErrorEvidence.inspect evidence) = (flag evidence || l.any shows) := by
  induction l generalizing evidence with
  | nil => simp
  | cons o l ih => rw [List.foldl_cons, ih, hflag, List.any_cons, Bool.or_assoc]

/-- A flag is set when an object of the chain shows it. -/
private theorem inspect_flag_iff (flag : TransactionErrorEvidence → Bool)
    (shows : ErrorObject → Bool) (hstart : flag ⟨false, false, false⟩ = false)
    (hflag : ∀ evidence o, flag (TransactionErrorEvidence.inspect evidence o) =
      (flag evidence || shows o)) (error : Thrown) :
    flag (inspectTransactionErrorCauseChain error) = true ↔
      ∃ o, Chained error o ∧ shows o = true := by
  unfold inspectTransactionErrorCauseChain
  rw [foldl_inspect_flag flag shows hflag, hstart, Bool.false_or, List.any_eq_true]
  simp only [mem_causeChain]

/-- A commit result is unknown exactly when some error on the chain says so. -/
theorem isUnknownTransactionCommitResult_iff (error : Thrown) :
    isUnknownTransactionCommitResult error = true ↔
      ∃ o, Chained error o ∧ o.hasLabel "UnknownTransactionCommitResult" = true :=
  inspect_flag_iff TransactionErrorEvidence.hasUnknownTransactionCommitResult
    (ErrorObject.hasLabel · "UnknownTransactionCommitResult") rfl (fun _ _ => rfl) error

/-- An error is transient exactly when some error on the chain says so. -/
theorem isTransientTransactionError_iff (error : Thrown) :
    isTransientTransactionError error = true ↔
      ∃ o, Chained error o ∧ o.hasLabel "TransientTransactionError" = true :=
  inspect_flag_iff TransactionErrorEvidence.hasTransientTransactionError
    (ErrorObject.hasLabel · "TransientTransactionError") rfl (fun _ _ => rfl) error

/-- A time limit was exceeded exactly when some error on the chain says so. -/
theorem isMaxTimeMSExpiredError_iff (error : Thrown) :
    isMaxTimeMSExpiredError error = true ↔ ∃ o, Chained error o ∧ o.maxTimeMSExpired = true :=
  inspect_flag_iff TransactionErrorEvidence.hasMaxTimeMSExpired
    ErrorObject.maxTimeMSExpired rfl (fun _ _ => rfl) error

end Ascendance.UnitOfWork
