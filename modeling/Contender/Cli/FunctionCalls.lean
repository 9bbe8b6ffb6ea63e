import Contender.Data.Splitting
import Contender.Data.Trimming
import Contender.Primitives

/-!
# Function calls on the command line

The setup and spam calls of a custom contract are given as texts such as `setNumber(123456)`. The
parser takes what stands between the first opening and the last closing parenthesis, and splits it
at every comma. A call that no function of the contract fits is written back into the error.

## Main results

* `functionCalls_iff` — a written call is read back exactly when it has a name and no argument has
  a comma in it, and the parser panics exactly when the last closing parenthesis comes before the
  first opening one
-/

namespace Contender

inductive ContractMetaError
  | abiFunctionNotFound (call : Text)
  | functionNotFound (name : Text)
  | invalidCall (text : Text)
  deriving DecidableEq, Repr

structure NameAndArgs where
  name : Text
  args : List Text
  deriving DecidableEq, Repr

namespace NameAndArgs

def missingOpen (call : Text) : Text := "'".toList ++ call ++ "' missing '('".toList

def nameEmpty (call : Text) : Text := "'".toList ++ call ++ "' function name is empty".toList

def missingClose (call : Text) : Text := "'".toList ++ call ++ "' missing ')'".toList

/-- The arguments in the text between the parentheses. -/
def splitArgs (argsStr : Text) : List Text :=
  if trim argsStr = [] then [] else (argsStr.splitOn ',').map trim

/-- `NameAndArgs::from_function_call`; `none` is a panic. -/
def fromFunctionCall (call : Text) : Option (Except ContractMetaError NameAndArgs) :=
  match call.idxOf? '(' with
  | none => some (.error (.invalidCall (missingOpen call)))
  | some openParen =>
    let fnName := call.take openParen
    if fnName = [] then some (.error (.invalidCall (nameEmpty call)))
    else
      match call.lastIdxOf? ')' with
      | none => some (.error (.invalidCall (missingClose call)))
      | some closeParen =>
        -- a slice that ends before it begins
        if closeParen < openParen + 1 then none
        else
          let argsStr := (call.take closeParen).drop (openParen + 1)
          some (.ok ⟨fnName, splitArgs argsStr⟩)

def toFnCall (x : NameAndArgs) : Text :=
  x.name ++ "(".toList ++ ", ".toList.intercalate x.args ++ ")".toList

/-- `NameAndArgs::signature`, where `functions` are the functions of the contract by name,
`signatureOf` is the signature of one of them, and `encodes` says whether arguments can be encoded
for a signature. The call in the error can be read back (`fromFunctionCall_of_signature`). -/
def signature {F : Type} (functions : Text → Option (List F)) (signatureOf : F → Text)
    (encodes : List Text → Text → Bool) (x : NameAndArgs) : Except ContractMetaError Text :=
  match functions x.name with
  | none => .error (.functionNotFound x.name)
  | some fnAbis =>
    match fnAbis.find? fun abi => encodes x.args (signatureOf abi) with
    | none => .error (.abiFunctionNotFound x.toFnCall)
    | some functionAbi => .ok (signatureOf functionAbi)

end NameAndArgs

/-! ### Calls and their texts -/

/-- Every bracket is closed by its own kind, where the stack has what is to be closed. -/
def balancedFrom : List Char → Text → Bool
  | stack, [] => stack.isEmpty
  | stack, c :: rest =>
    if c = '(' then balancedFrom (')' :: stack) rest
    else if c = '[' then balancedFrom (']' :: stack) rest
    else if c = ')' ∨ c = ']' then
      match stack with
      | [] => false
      | top :: stack => decide (c = top) && balancedFrom stack rest
    else balancedFrom stack rest

/-- A function call: a name without parentheses, and arguments that are trimmed, not empty and
balanced. -/
structure FunctionCall extends NameAndArgs where
  name_noParens : '(' ∉ name ∧ ')' ∉ name
  ne_nil : ∀ arg ∈ args, arg ≠ []
  trimmed : ∀ arg ∈ args, trim arg = arg
  balanced : ∀ arg ∈ args, balancedFrom [] arg = true

/-- Reading the text of the call gives the call. -/
def NameAndArgs.RoundTrips (x : NameAndArgs) : Prop := fromFunctionCall x.toFnCall = some (.ok x)

namespace NameAndArgs

/-- Arguments that have been joined are split into the same ones, exactly when none has a comma in
it. -/
theorem splitArgs_intercalate_iff {args : List Text} (hne : ∀ arg ∈ args, arg ≠ [])
    (htrim : ∀ arg ∈ args, trim arg = arg) :
    splitArgs (", ".toList.intercalate args) = args ↔ ∀ arg ∈ args, ',' ∉ arg := by
  cases args with
  | nil => exact iff_of_true rfl nofun
  | cons arg args =>
    have hfull : trim (", ".toList.intercalate (arg :: args)) ≠ [] := by
      intro hnil
      have hspace := List.trimBoth_eq_nil_iff.mp hnil
      have harg : trim arg = [] := List.trimBoth_eq_nil_iff.mpr fun c hc =>
        hspace c (List.subset_intercalate_cons _ _ _ hc)
      rw [htrim arg List.mem_cons_self] at harg
      exact hne arg List.mem_cons_self harg
    rw [splitArgs, if_neg hfull]
    constructor
    · intro hsplit other hother
      rw [← hsplit] at hother
      obtain ⟨part, hpart, rfl⟩ := List.mem_map.mp hother
      exact fun hcomma => List.notMem_of_mem_splitOn hpart (List.trimBoth_subset _ _ hcomma)
    · intro hcomma
      have hparts : (", ".toList.intercalate (arg :: args)).splitOn ',' =
          arg :: args.map ([' '] ++ ·) := List.splitOn_intercalate_cons (by decide) hcomma
      obtain ⟨harg, hargs⟩ := List.forall_mem_cons.mp htrim
      rw [hparts, List.map_cons, List.map_map, harg]
      have hrest : args.map (trim ∘ ([' '] ++ ·)) = args :=
        (List.map_congr_left (g := id) hargs).trans (List.map_id args)
      rw [hrest]

/-- The slice between the parentheses. -/
theorem fromFunctionCall_of_close {before after : Text} {i : ℕ} (hbefore : '(' ∉ before)
    (hclose : after.lastIdxOf? ')' = some i) :
    fromFunctionCall (before ++ '(' :: after) =
      if before = [] then some (.error (.invalidCall (nameEmpty (before ++ '(' :: after))))
      else some (.ok ⟨before, splitArgs (after.take i)⟩) := by
  have hopen : (before ++ '(' :: after).idxOf? '(' = some before.length :=
    List.idxOf?_append_cons hbefore
  have hlast : (before ++ '(' :: after).lastIdxOf? ')' = some (before.length + (i + 1)) :=
    List.lastIdxOf?_append_of_some (by rw [List.lastIdxOf?, hclose])
  have hslice : ((before ++ '(' :: after).take (before.length + (i + 1))).drop
      (before.length + 1) = after.take i := by
    rw [List.take_length_add_append, List.take_succ_cons, List.drop_length_add_append]
    rfl
  unfold fromFunctionCall
  simp only [hopen, hlast, List.take_left, hslice]
  split_ifs
  · rfl
  · omega
  · rfl

/-- Without a closing parenthesis behind the opening one, one in front of it is fatal. -/
theorem fromFunctionCall_of_noClose {before after : Text} (hbefore : '(' ∉ before)
    (hclose : ')' ∉ after) :
    fromFunctionCall (before ++ '(' :: after) = none ↔ ')' ∈ before := by
  have hopen : (before ++ '(' :: after).idxOf? '(' = some before.length :=
    List.idxOf?_append_cons hbefore
  have hlast : (before ++ '(' :: after).lastIdxOf? ')' = before.lastIdxOf? ')' :=
    List.lastIdxOf?_append_of_notMem (by simpa using hclose)
  unfold fromFunctionCall
  simp only [hopen, hlast, List.take_left]
  cases hfront : before.lastIdxOf? ')' with
  | none =>
    refine iff_of_false ?_ (List.lastIdxOf?_eq_none.mp hfront)
    split_ifs <;> exact not_false
  | some i =>
    have hlt := List.lastIdxOf?_lt hfront
    have hmem : ')' ∈ before := by
      by_contra hnone
      rw [List.lastIdxOf?_eq_none.mpr hnone] at hfront
      cases hfront
    refine iff_of_true ?_ hmem
    rw [if_neg (List.ne_nil_of_mem hmem)]
    exact if_pos (by omega)

/-- The parser panics exactly when a closing parenthesis comes before the first opening one, and
none behind it. -/
theorem fromFunctionCall_eq_none_iff {call : Text} :
    fromFunctionCall call = none ↔ ∃ before after, call = before ++ '(' :: after ∧
      '(' ∉ before ∧ ')' ∈ before ∧ ')' ∉ after := by
  constructor
  · intro hpanic
    have hopen : '(' ∈ call := by
      by_contra hnone
      rw [fromFunctionCall, List.idxOf?_eq_none_iff.mpr hnone] at hpanic
      cases hpanic
    obtain ⟨before, after, rfl, hbefore⟩ := List.eq_append_cons_of_mem hopen
    have hclose : ')' ∉ after := by
      intro hmem
      obtain ⟨i, hi⟩ := Option.ne_none_iff_exists'.mp fun hnone =>
        List.lastIdxOf?_eq_none.mp hnone hmem
      rw [fromFunctionCall_of_close hbefore hi] at hpanic
      split_ifs at hpanic
    exact ⟨before, after, rfl, hbefore, (fromFunctionCall_of_noClose hbefore hclose).mp hpanic,
      hclose⟩
  · rintro ⟨before, after, rfl, hbefore, hfront, hclose⟩
    exact (fromFunctionCall_of_noClose hbefore hclose).mpr hfront

/-- What reading a written call gives. -/
theorem fromFunctionCall_toFnCall {x : NameAndArgs} (hname : '(' ∉ x.name) :
    fromFunctionCall x.toFnCall =
      if x.name = [] then some (.error (.invalidCall (nameEmpty x.toFnCall)))
      else some (.ok ⟨x.name, splitArgs (", ".toList.intercalate x.args)⟩) := by
  have hcall : x.toFnCall = x.name ++ '(' :: (", ".toList.intercalate x.args ++ [')']) := by
    rw [toFnCall]
    simp only [List.append_assoc]
    rfl
  have hclose : (", ".toList.intercalate x.args ++ [')']).lastIdxOf? ')' =
      some ((", ".toList.intercalate x.args).length + 0) :=
    List.lastIdxOf?_append_of_some rfl
  rw [hcall, fromFunctionCall_of_close hname hclose, Nat.add_zero, List.take_left]

theorem toFnCall_roundTrips_iff {x : NameAndArgs} (hname : '(' ∉ x.name)
    (hne : ∀ arg ∈ x.args, arg ≠ []) (htrim : ∀ arg ∈ x.args, trim arg = arg) :
    x.RoundTrips ↔ x.name ≠ [] ∧ ∀ arg ∈ x.args, ',' ∉ arg := by
  rw [RoundTrips, fromFunctionCall_toFnCall hname, ← splitArgs_intercalate_iff hne htrim]
  split_ifs with hempty
  · exact iff_of_false (by simp) fun h => h.1 hempty
  · obtain ⟨name, args⟩ := x
    simp only [Option.some.injEq, Except.ok.injEq, mk.injEq, true_and]
    exact (and_iff_right hempty).symm

/-- The call in the error that no function fits can be read back, if the call can be at all. -/
theorem fromFunctionCall_of_signature {F : Type} {functions : Text → Option (List F)}
    {signatureOf : F → Text} {encodes : List Text → Text → Bool} {x : NameAndArgs} {call : Text}
    (h : signature functions signatureOf encodes x = .error (.abiFunctionNotFound call))
    (hx : x.RoundTrips) : fromFunctionCall call = some (.ok x) := by
  unfold signature at h
  split at h
  · cases h
  · split at h
    · cases h
      exact hx
    · cases h

end NameAndArgs

open NameAndArgs in
/-- **Reading and writing calls.** A call is read back exactly when it has a name and no argument
has a comma in it. The parser does not panic exactly when a closing parenthesis in front of the
first opening one has another one behind that. -/
theorem functionCalls_iff (x : FunctionCall) (call : Text) :
    (x.RoundTrips ↔ x.name ≠ [] ∧ ∀ arg ∈ x.args, ',' ∉ arg) ∧
      (fromFunctionCall call ≠ none ↔ ∀ before after, call = before ++ '(' :: after →
        '(' ∉ before → ')' ∈ before → ')' ∈ after) := by
  refine ⟨toFnCall_roundTrips_iff x.name_noParens.1 x.ne_nil x.trimmed, ?_⟩
  rw [Ne, fromFunctionCall_eq_none_iff]
  push Not
  rfl

/-- A call with a pair as its argument. -/
def FunctionCall.pair : FunctionCall where
  name := "setPair".toList
  args := ["(1,2)".toList]
  name_noParens := by decide
  ne_nil := by decide
  trimmed := by decide
  balanced := by decide

/-- A pair is read as two arguments, and the second text is fatal. -/
theorem functionCalls_counterexample :
    NameAndArgs.fromFunctionCall FunctionCall.pair.toFnCall =
        some (.ok ⟨"setPair".toList, ["(1".toList, "2)".toList]⟩) ∧
      ¬ FunctionCall.pair.RoundTrips ∧ NameAndArgs.fromFunctionCall "a)b(".toList = none := by
  have hread : NameAndArgs.fromFunctionCall FunctionCall.pair.toFnCall =
      some (.ok ⟨"setPair".toList, ["(1".toList, "2)".toList]⟩) := by decide +kernel
  refine ⟨hread, fun hroundTrips => ?_, by decide +kernel⟩
  have hargs := congrArg NameAndArgs.args
    (Except.ok.inj (Option.some.inj (hread.symm.trans hroundTrips)))
  exact absurd hargs (by decide +kernel)

end Contender
