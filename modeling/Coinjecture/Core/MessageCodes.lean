import Coinjecture.Core.Transactions
import Coinjecture.Lib.Codes

/-! # The signed bytes as codes

The encodings that stand in a signing message are prefix codes: wherever two messages are equal, the
fields they were written from are, one after the other. -/

namespace Coinjecture.Core.MessageCodes

open Lib.Bincode Lib.Float64 Lib.Codes
open Core.Types Core.Problem Core.Transactions

instance : PrefixCode Hash where
  Fits _ := True
  split {a b _ _} _ _ h := by
    obtain ⟨hnat, hrest⟩ := beBytes_split (k := 32) a.bytes.isLt b.bytes.isLt h
    exact ⟨Hash.ext (BitVec.eq_of_toNat_eq hnat), hrest⟩

instance : PrefixCode Address where
  Fits _ := True
  split {a b _ _} _ _ h := by
    obtain ⟨hnat, hrest⟩ := beBytes_split (k := 32) a.bytes.isLt b.bytes.isLt h
    exact ⟨Address.ext (BitVec.eq_of_toNat_eq hnat), hrest⟩

instance : PrefixCode PublicKey where
  Fits _ := True
  split {a b _ _} _ _ h := by
    obtain ⟨hnat, hrest⟩ := beBytes_split (k := 32) a.bytes.isLt b.bytes.isLt h
    exact ⟨PublicKey.ext (BitVec.eq_of_toNat_eq hnat), hrest⟩

instance : PrefixCode F64 where
  Fits _ := True
  split {a b _ _} _ _ h := by
    have hbits : encode a.bits ++ _ = encode b.bits ++ _ := h
    obtain ⟨hbits, hrest⟩ := PrefixCode.split trivial trivial hbits
    cases a
    cases b
    exact ⟨congrArg F64.mk hbits, hrest⟩

/-! ### Enums -/

/-- An enum is split at its index. -/
theorem enum_split {T : Type} [Encode T] {tag : T → ℕ} {body : T → Bytes}
    (hcode : ∀ x, encode x = variant (tag x) ++ body x) (htag : ∀ x, tag x < 256 ^ 4) {a b : T}
    {s t : Bytes} (h : encode a ++ s = encode b ++ t) :
    tag a = tag b ∧ body a ++ s = body b ++ t := by
  rw [hcode, hcode, List.append_assoc, List.append_assoc] at h
  exact variant_split (htag a) (htag b) h

instance : PrefixCode Clause where
  Fits c := Fits c.literals
  split {a b _ _} ha hb h := by
    have hliterals : encode a.literals ++ _ = encode b.literals ++ _ := h
    obtain ⟨hliterals, hrest⟩ := PrefixCode.split ha hb hliterals
    cases a
    cases b
    exact ⟨congrArg Clause.mk hliterals, hrest⟩

def problemTag : ProblemType → ℕ
  | .SubsetSum .. => 0 | .SAT .. => 1 | .TSP .. => 2 | .Custom .. => 3

def problemBody : ProblemType → Bytes
  | .SubsetSum numbers target => encode numbers ++ encode target
  | .SAT vars clauses => encode vars ++ encode clauses
  | .TSP cities distances => encode cities ++ encode distances
  | .Custom problemId data => encode problemId ++ encode data

theorem encode_problem (p : ProblemType) : encode p = variant (problemTag p) ++ problemBody p := by
  cases p with
  | SubsetSum numbers target => exact List.append_assoc ..
  | SAT vars clauses => exact List.append_assoc ..
  | TSP cities distances => exact List.append_assoc ..
  | Custom problemId data => exact List.append_assoc ..

theorem problemTag_lt (p : ProblemType) : problemTag p < 256 ^ 4 := by
  cases p
  all_goals simp [problemTag]

instance : PrefixCode ProblemType where
  Fits
    | .SubsetSum numbers _ => Fits numbers
    | .SAT _ clauses => Fits clauses
    | .TSP _ distances => Fits distances
    | .Custom _ data => Fits data
  split {a b s t} ha hb h := by
    obtain ⟨htag, h⟩ := enum_split encode_problem problemTag_lt h
    cases a with
    | SubsetSum numbers target =>
      cases b with
      | SubsetSum numbers' target' =>
        simp only [problemBody, List.append_assoc] at h
        obtain ⟨rfl, htail⟩ := PrefixCode.split ha hb h
        obtain ⟨rfl, hrest⟩ := PrefixCode.split trivial trivial htail
        exact ⟨rfl, hrest⟩
      | _ => simp [problemTag] at htag
    | SAT vars clauses =>
      cases b with
      | SAT vars' clauses' =>
        simp only [problemBody, List.append_assoc] at h
        obtain ⟨rfl, htail⟩ := PrefixCode.split trivial trivial h
        obtain ⟨rfl, hrest⟩ := PrefixCode.split ha hb htail
        exact ⟨rfl, hrest⟩
      | _ => simp [problemTag] at htag
    | TSP cities distances =>
      cases b with
      | TSP cities' distances' =>
        simp only [problemBody, List.append_assoc] at h
        obtain ⟨rfl, htail⟩ := PrefixCode.split trivial trivial h
        obtain ⟨rfl, hrest⟩ := PrefixCode.split ha hb htail
        exact ⟨rfl, hrest⟩
      | _ => simp [problemTag] at htag
    | Custom problemId data =>
      cases b with
      | Custom problemId' data' =>
        simp only [problemBody, List.append_assoc] at h
        obtain ⟨rfl, htail⟩ := PrefixCode.split trivial trivial h
        obtain ⟨rfl, hrest⟩ := PrefixCode.split ha hb htail
        exact ⟨rfl, hrest⟩
      | _ => simp [problemTag] at htag

def solutionTag : Solution → ℕ
  | .SubsetSum _ => 0 | .SAT _ => 1 | .TSP _ => 2 | .Custom _ => 3

def solutionBody : Solution → Bytes
  | .SubsetSum indices => encode indices
  | .SAT assignment => encode assignment
  | .TSP tour => encode tour
  | .Custom data => encode data

theorem encode_solution (x : Solution) : encode x = variant (solutionTag x) ++ solutionBody x := by
  cases x
  all_goals rfl

theorem solutionTag_lt (x : Solution) : solutionTag x < 256 ^ 4 := by
  cases x
  all_goals simp [solutionTag]

instance : PrefixCode Solution where
  Fits
    | .SubsetSum indices => Fits indices
    | .SAT assignment => Fits assignment
    | .TSP tour => Fits tour
    | .Custom data => Fits data
  split {a b s t} ha hb h := by
    obtain ⟨htag, h⟩ := enum_split encode_solution solutionTag_lt h
    cases a with
    | SubsetSum indices =>
      cases b with
      | SubsetSum indices' =>
        obtain ⟨rfl, hrest⟩ := PrefixCode.split ha hb h
        exact ⟨rfl, hrest⟩
      | _ => simp [solutionTag] at htag
    | SAT assignment =>
      cases b with
      | SAT assignment' =>
        obtain ⟨rfl, hrest⟩ := PrefixCode.split ha hb h
        exact ⟨rfl, hrest⟩
      | _ => simp [solutionTag] at htag
    | TSP tour =>
      cases b with
      | TSP tour' =>
        obtain ⟨rfl, hrest⟩ := PrefixCode.split ha hb h
        exact ⟨rfl, hrest⟩
      | _ => simp [solutionTag] at htag
    | Custom data =>
      cases b with
      | Custom data' =>
        obtain ⟨rfl, hrest⟩ := PrefixCode.split ha hb h
        exact ⟨rfl, hrest⟩
      | _ => simp [solutionTag] at htag

def operationTag : MarketplaceOperation → ℕ
  | .SubmitProblem .. => 0 | .SubmitSolution .. => 1 | .ClaimBounty _ => 2 | .CancelProblem _ => 3

def operationBody : MarketplaceOperation → Bytes
  | .SubmitProblem problem bounty minWorkScore expirationDays title briefing =>
    encode problem ++ encode bounty ++ encode minWorkScore ++ encode expirationDays ++
      encode title ++ encode briefing
  | .SubmitSolution problemId solution => encode problemId ++ encode solution
  | .ClaimBounty problemId => encode problemId
  | .CancelProblem problemId => encode problemId

theorem encode_operation (op : MarketplaceOperation) :
    encode op = variant (operationTag op) ++ operationBody op := by
  cases op with
  | SubmitProblem problem bounty minWorkScore expirationDays title briefing =>
    simp only [operationTag, operationBody, encode, List.append_assoc]
  | SubmitSolution problemId solution => exact List.append_assoc ..
  | ClaimBounty problemId => rfl
  | CancelProblem problemId => rfl

theorem operationTag_lt (op : MarketplaceOperation) : operationTag op < 256 ^ 4 := by
  cases op
  all_goals simp [operationTag]

instance : PrefixCode MarketplaceOperation where
  Fits
    | .SubmitProblem problem _ _ _ title briefing => Fits problem ∧ Fits title ∧ Fits briefing
    | .SubmitSolution _ solution => Fits solution
    | .ClaimBounty _ | .CancelProblem _ => True
  split {a b s t} ha hb h := by
    obtain ⟨htag, h⟩ := enum_split encode_operation operationTag_lt h
    cases a with
    | SubmitProblem problem bounty minWorkScore expirationDays title briefing =>
      cases b with
      | SubmitProblem problem' bounty' minWorkScore' expirationDays' title' briefing' =>
        simp only [operationBody, List.append_assoc] at h
        obtain ⟨rfl, h1⟩ := PrefixCode.split ha.1 hb.1 h
        obtain ⟨rfl, h2⟩ := PrefixCode.split trivial trivial h1
        obtain ⟨rfl, h3⟩ := PrefixCode.split trivial trivial h2
        obtain ⟨rfl, h4⟩ := PrefixCode.split trivial trivial h3
        obtain ⟨rfl, h5⟩ := PrefixCode.split ha.2.1 hb.2.1 h4
        obtain ⟨rfl, hrest⟩ := PrefixCode.split ha.2.2 hb.2.2 h5
        exact ⟨rfl, hrest⟩
      | _ => simp [operationTag] at htag
    | SubmitSolution problemId solution =>
      cases b with
      | SubmitSolution problemId' solution' =>
        simp only [operationBody, List.append_assoc] at h
        obtain ⟨rfl, htail⟩ := PrefixCode.split trivial trivial h
        obtain ⟨rfl, hrest⟩ := PrefixCode.split ha hb htail
        exact ⟨rfl, hrest⟩
      | _ => simp [operationTag] at htag
    | ClaimBounty problemId =>
      cases b with
      | ClaimBounty problemId' =>
        obtain ⟨rfl, hrest⟩ := PrefixCode.split trivial trivial h
        exact ⟨rfl, hrest⟩
      | _ => simp [operationTag] at htag
    | CancelProblem problemId =>
      cases b with
      | CancelProblem problemId' =>
        obtain ⟨rfl, hrest⟩ := PrefixCode.split trivial trivial h
        exact ⟨rfl, hrest⟩
      | _ => simp [operationTag] at htag

def trustlineTag : TrustLineType → ℕ
  | .Create .. => 0 | .UpdateLimits .. => 1 | .Freeze => 2 | .Close => 3 | .EvolvePhase _ => 4

def trustlineBody : TrustLineType → Bytes
  | .Create accountB limitAToB limitBToA qualityIn qualityOut rippleEnabled dimensionalScale =>
    encode accountB ++ encode limitAToB ++ encode limitBToA ++ encode qualityIn ++
      encode qualityOut ++ encode rippleEnabled ++ encode dimensionalScale
  | .UpdateLimits limitAToB limitBToA => encode limitAToB ++ encode limitBToA
  | .Freeze | .Close => []
  | .EvolvePhase deltaTau => encode deltaTau

theorem encode_trustline (x : TrustLineType) :
    encode x = variant (trustlineTag x) ++ trustlineBody x := by
  cases x with
  | Create accountB limitAToB limitBToA qualityIn qualityOut rippleEnabled dimensionalScale =>
    simp only [trustlineTag, trustlineBody, encode, List.append_assoc]
  | UpdateLimits limitAToB limitBToA => exact List.append_assoc ..
  | Freeze => exact (List.append_nil _).symm
  | Close => exact (List.append_nil _).symm
  | EvolvePhase deltaTau => rfl

theorem trustlineTag_lt (x : TrustLineType) : trustlineTag x < 256 ^ 4 := by
  cases x
  all_goals simp [trustlineTag]

instance : PrefixCode TrustLineType where
  Fits _ := True
  split {a b s t} ha hb h := by
    obtain ⟨htag, h⟩ := enum_split encode_trustline trustlineTag_lt h
    cases a with
    | Create accountB limitAToB limitBToA qualityIn qualityOut rippleEnabled dimensionalScale =>
      cases b with
      | Create accountB' limitAToB' limitBToA' qualityIn' qualityOut' rippleEnabled'
          dimensionalScale' =>
        simp only [trustlineBody, List.append_assoc] at h
        obtain ⟨rfl, h1⟩ := PrefixCode.split trivial trivial h
        obtain ⟨rfl, h2⟩ := PrefixCode.split trivial trivial h1
        obtain ⟨rfl, h3⟩ := PrefixCode.split trivial trivial h2
        obtain ⟨rfl, h4⟩ := PrefixCode.split trivial trivial h3
        obtain ⟨rfl, h5⟩ := PrefixCode.split trivial trivial h4
        obtain ⟨rfl, h6⟩ := PrefixCode.split trivial trivial h5
        obtain ⟨rfl, hrest⟩ := PrefixCode.split trivial trivial h6
        exact ⟨rfl, hrest⟩
      | _ => simp [trustlineTag] at htag
    | UpdateLimits limitAToB limitBToA =>
      cases b with
      | UpdateLimits limitAToB' limitBToA' =>
        simp only [trustlineBody, List.append_assoc] at h
        obtain ⟨rfl, htail⟩ := PrefixCode.split (fun _ _ => trivial) (fun _ _ => trivial) h
        obtain ⟨rfl, hrest⟩ := PrefixCode.split (fun _ _ => trivial) (fun _ _ => trivial) htail
        exact ⟨rfl, hrest⟩
      | _ => simp [trustlineTag] at htag
    | Freeze =>
      cases b with
      | Freeze => exact ⟨rfl, h⟩
      | _ => simp [trustlineTag] at htag
    | Close =>
      cases b with
      | Close => exact ⟨rfl, h⟩
      | _ => simp [trustlineTag] at htag
    | EvolvePhase deltaTau =>
      cases b with
      | EvolvePhase deltaTau' =>
        obtain ⟨rfl, hrest⟩ := PrefixCode.split trivial trivial h
        exact ⟨rfl, hrest⟩
      | _ => simp [trustlineTag] at htag

end Coinjecture.Core.MessageCodes
