/-
The licenses of a draft are the set of its tokens, and joining drafts joins
the sets.

# Members

The walk over a stack lists the tokens in reading order (`listed`), and what
is listed is found in the parts of the draft (`PartOf`): the text of every
license, also where an exception stands with it, and every exception. An
ascending list without repetition is known by its members, so from here on
two drafts have the same licenses as soon as they list the same tokens,
however often and in whatever order (`licenses_congr`).

# Moves

A node lists what its operands list, whichever operator it is. Hence joining
is commutative, associative and idempotent as far as licenses go, and so is
every move that exchanges, regroups or doubles operands anywhere in a draft
(`Rearranged`).
-/
import Mathlib.Data.List.Dedup
import Mathlib.Data.List.Sort
import Mathlib.Data.String.Basic
import LicenseExpr.Proofs.Regrouping
import LicenseExpr.Subject

namespace LicenseExpr

namespace Draft

variable {α : Type}

-- ================================================================= parts

/-- The operands of the outermost node. -/
def operands : Draft α → List (Draft α)
  | license _ => []
  | withException _ _ => []
  | and left right => [left, right]
  | or left right => [left, right]
  | parens inner => [inner]
  | foreign _ => []

/-- `part` is the whole draft or stands somewhere in an operand of it. -/
inductive PartOf (part : Draft α) : Draft α → Prop where
  | whole : PartOf part part
  | inside {draft operand : Draft α} :
      operand ∈ draft.operands → PartOf part operand → PartOf part draft

/-- The tokens that the outermost node has, without those of its
operands. -/
def ownTokens : Draft α → List String
  | license l => [l.text]
  | withException l exception => [l.text, exception]
  | and _ _ => []
  | or _ _ => []
  | parens _ => []
  | foreign _ => []

/-- Some part of the draft has the token. -/
def HasToken (draft : Draft α) (token : String) : Prop :=
  ∃ part, PartOf part draft ∧ token ∈ part.ownTokens

section Tokens

variable {draft : Draft α} {token : String}

/-- A token of a draft is one of its outermost node or of an operand. -/
theorem hasToken_iff :
    draft.HasToken token ↔ token ∈ draft.ownTokens
      ∨ ∃ operand ∈ draft.operands, operand.HasToken token := by
  constructor
  · rintro ⟨part, hpart, htoken⟩
    cases hpart with
    | whole => exact .inl htoken
    | inside hmem hpart => exact .inr ⟨_, hmem, part, hpart, htoken⟩
  · rintro (htoken | ⟨operand, hmem, part, hpart, htoken⟩)
    · exact ⟨draft, .whole, htoken⟩
    · exact ⟨part, .inside hmem hpart, htoken⟩

/-- What is listed are the tokens of all parts. -/
theorem mem_listed : token ∈ draft.listed ↔ draft.HasToken token := by
  induction draft with
  | license l =>
      rw [hasToken_iff]
      simp [listed, ownTokens, operands]
  | withException l exception =>
      rw [hasToken_iff]
      simp [listed, ownTokens, operands]
  | and left right ihl ihr =>
      rw [hasToken_iff]
      simp [listed, ownTokens, operands, ihl, ihr]
  | or left right ihl ihr =>
      rw [hasToken_iff]
      simp [listed, ownTokens, operands, ihl, ihr]
  | parens inner ih =>
      rw [hasToken_iff]
      simp [listed, ownTokens, operands, ih]
  | foreign value =>
      rw [hasToken_iff]
      simp [listed, ownTokens, operands]

/-- A token is the text of a license in the draft or an exception in it, and
a license counts also where an exception stands with it. -/
theorem hasToken_iff_exists :
    draft.HasToken token ↔
      (∃ l, PartOf (license l) draft ∧ l.text = token)
      ∨ ∃ l exception, PartOf (withException l exception) draft
        ∧ (l.text = token ∨ exception = token) := by
  constructor
  · rintro ⟨part, hpart, htoken⟩
    cases part with
    | license l =>
        obtain rfl := List.mem_singleton.1 htoken
        exact .inl ⟨l, hpart, rfl⟩
    | withException l exception =>
        refine .inr ⟨l, exception, hpart, ?_⟩
        rcases List.mem_cons.1 htoken with rfl | hexception
        · exact .inl rfl
        · exact .inr (List.mem_singleton.1 hexception).symm
    | _ => exact absurd htoken List.not_mem_nil
  · rintro (⟨l, hpart, rfl⟩ | ⟨l, exception, hpart, rfl | rfl⟩)
    · exact ⟨license l, hpart, .head _⟩
    · exact ⟨withException l exception, hpart, .head _⟩
    · exact ⟨withException l exception, hpart, .tail _ (.head _)⟩

end Tokens

-- ================================================================== sets

/-- The licenses are what is listed. -/
theorem mem_licenses_iff_listed {draft : Draft α} {token : String} :
    token ∈ draft.licenses ↔ token ∈ draft.listed := by
  rw [licenses, Text.mem_ascending, tokens_eq_listed]

/-- They ascend, and so none is there twice. -/
theorem pairwise_licenses (draft : Draft α) :
    draft.licenses.Pairwise (· < ·) := Text.pairwise_ascending _

/-- Drafts that list the same tokens have the same licenses. -/
theorem licenses_congr {s t : Draft α}
    (h : ∀ token, token ∈ s.listed ↔ token ∈ t.listed) :
    s.licenses = t.licenses := by
  refine s.pairwise_licenses.eq_of_mem_iff t.pairwise_licenses fun token => ?_
  rw [mem_licenses_iff_listed, mem_licenses_iff_listed, h]

end Draft

/-- Two ascending lists in one, without repetition. -/
def merged (a b : List String) : List String :=
  (a.merge b fun x y => decide (x ≤ y)).dedup

/-- What is merged comes from either list. -/
theorem mem_merged {a b : List String} {text : String} :
    text ∈ merged a b ↔ text ∈ a ∨ text ∈ b := by
  rw [merged, List.mem_dedup, List.mem_merge]

/-- Ascending lists merge to an ascending one. -/
theorem pairwise_merged {a b : List String} (ha : a.Pairwise (· < ·))
    (hb : b.Pairwise (· < ·)) : (merged a b).Pairwise (· < ·) := by
  have ha' : a.Pairwise (· ≤ ·) := ha.imp fun h => le_of_lt h
  have hb' : b.Pairwise (· ≤ ·) := hb.imp fun h => le_of_lt h
  have hle := (ha'.merge hb').sublist (List.dedup_sublist _)
  -- merging alone ascends with repetitions; without them it does so strictly
  have hne : (merged a b).Nodup := List.nodup_dedup _
  exact (hle.and hne).imp fun h => lt_of_le_of_ne h.1 h.2

-- ================================================================= moves

namespace Draft

variable {α : Type}

/-- Two drafts joined by an operator. -/
def join : Joint → Draft α → Draft α → Draft α
  | .and => and
  | .or => or

/-- Operands are listed one after the other, whatever joins them. -/
theorem listed_join (joint : Joint) (s t : Draft α) :
    (join joint s t).listed = s.listed ++ t.listed := by
  cases joint <;> rfl

/-- Drafts that come from each other by exchanging operands, grouping them
otherwise or doubling them, by other operators between them and by
parentheses around them, anywhere and any number of times. -/
inductive Rearranged : Draft α → Draft α → Prop where
  | refl (s : Draft α) : Rearranged s s
  | symm {s t : Draft α} : Rearranged s t → Rearranged t s
  | trans {s t u : Draft α} :
      Rearranged s t → Rearranged t u → Rearranged s u
  | exchange (joint : Joint) (s t : Draft α) :
      Rearranged (join joint s t) (join joint t s)
  | regroup (i j : Joint) (s t u : Draft α) :
      Rearranged (join j (join i s t) u) (join i s (join j t u))
  | double (joint : Joint) (s : Draft α) : Rearranged s (join joint s s)
  | operator (i j : Joint) (s t : Draft α) :
      Rearranged (join i s t) (join j s t)
  | parens (s : Draft α) : Rearranged (parens s) s
  | operands (joint : Joint) {s s' t t' : Draft α} :
      Rearranged s s' → Rearranged t t' →
      Rearranged (join joint s t) (join joint s' t')

/-- Every move keeps the tokens. -/
theorem Rearranged.mem_listed {s t : Draft α} (h : Rearranged s t)
    (token : String) : token ∈ s.listed ↔ token ∈ t.listed := by
  induction h with
  | refl s => rfl
  | symm _ ih => exact ih.symm
  | trans _ _ ih ih' => exact ih.trans ih'
  | exchange joint s t =>
      rw [listed_join, listed_join, List.mem_append, List.mem_append,
        or_comm]
  | regroup i j s t u =>
      simp only [listed_join, List.append_assoc]
  | double joint s => rw [listed_join, List.mem_append, or_self]
  | operator i j s t => rw [listed_join, listed_join]
  | parens s => rfl
  | operands joint _ _ ih ih' =>
      rw [listed_join, listed_join, List.mem_append, List.mem_append, ih,
        ih']

/-- The licenses of two drafts that are joined are those of the one and
those of the other. -/
theorem licenses_join (joint : Joint) (s t : Draft α) :
    (join joint s t).licenses = merged s.licenses t.licenses := by
  refine (pairwise_licenses _).eq_of_mem_iff
    (pairwise_merged s.pairwise_licenses t.pairwise_licenses) fun token => ?_
  rw [mem_merged, mem_licenses_iff_listed, mem_licenses_iff_listed,
    mem_licenses_iff_listed, listed_join, List.mem_append]

end Draft

/-- Whatever stands in a draft, listing its licenses succeeds, unless the
draft as a whole is a foreign value. The list is strictly ascending by code
point and holds the text of every license, also of those with an exception,
and every exception, and nothing else. So the licenses of an AND and of an
OR, whichever operand comes first, are the licenses of both operands merged,
parentheses make no difference, and no exchange, regrouping or doubling of
operands changes anything. -/
theorem licenses_are_tokens :
    (∀ (stack : Stack) (t : Draft Value), (∀ value, t ≠ .foreign value) →
      t.findLicenses stack = pure (.ok t.licenses))
    ∧ (∀ {α : Type} (t : Draft α), t.licenses.Pairwise (· < ·)
      ∧ ∀ token, token ∈ t.licenses ↔
        (∃ l, Draft.PartOf (.license l) t ∧ l.text = token)
        ∨ ∃ l exception, Draft.PartOf (.withException l exception) t
          ∧ (l.text = token ∨ exception = token))
    ∧ (∀ {α : Type} (s t : Draft α),
      (Draft.and s t).licenses = merged s.licenses t.licenses
      ∧ (Draft.or s t).licenses = merged s.licenses t.licenses
      ∧ (Draft.or t s).licenses = merged s.licenses t.licenses
      ∧ (Draft.parens s).licenses = s.licenses)
    ∧ ∀ {α : Type} (s t : Draft α), Draft.Rearranged s t →
      s.licenses = t.licenses := by
  refine ⟨fun stack t h => ?_,
    fun t => ⟨t.pairwise_licenses, fun token => ?_⟩,
    fun s t => ⟨?_, ?_, ?_, ?_⟩, fun s t h => ?_⟩
  · cases t with
    | foreign value => exact absurd rfl (h value)
    | _ => rfl
  · rw [Draft.mem_licenses_iff_listed, Draft.mem_listed,
      Draft.hasToken_iff_exists]
  · exact Draft.licenses_join .and s t
  · exact Draft.licenses_join .or s t
  · rw [← Draft.licenses_join .or s t]
    exact Draft.licenses_congr (Draft.Rearranged.exchange .or t s).mem_listed
  · exact Draft.licenses_congr fun _ => Iff.rfl
  · exact Draft.licenses_congr h.mem_listed

end LicenseExpr
