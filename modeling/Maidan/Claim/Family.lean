/-
# Provider families

`PROVIDER_FAMILIES` and the rule that a seat of the author's family may not review the author's
change (`review_family.rs`).  The family of a usage record is read off its provider and model:
the FIRST family of the table one of whose words occurs in `provider ++ " " ++ model`, or one of
whose prefixes is the model or starts it before a `-`.

The same table is read twice, by SQL (`family_sql`, where `LOWER` and `LIKE` fold ASCII) and by
Rust (`provider_family`, where `to_lowercase` folds Unicode), so the folding is a parameter of
`familyOf` and the two readers are its two instances.
-/
import Maidan.Db

namespace Maidan

open Relational

/-! ## 1. The family a record names -/

/-- `PROVIDER_FAMILIES`: the family, the words that name it, its model prefixes. -/
def providerFamilies : List (String × List String × List String) :=
  [("anthropic", ["anthropic", "claude"], []),
   ("openai", ["openai", "gpt", "codex"], ["o1", "o3", "o4"]),
   ("google", ["google", "gemini", "vertex"], []),
   ("xai", ["xai", "grok"], []),
   ("deepseek", ["deepseek"], [])]

/-- `text.contains(word)`. -/
def containsWord (text word : List Char) : Bool := text.tails.any word.isPrefixOf

/-- The first family whose word is in `named`, or whose prefix names `model`; both already
folded to lower case. -/
def familyOf (named model : List Char) : Option String :=
  (providerFamilies.find? fun entry =>
    entry.2.1.any (fun word => containsWord named word.toList) ||
    entry.2.2.any (fun stem =>
      model == stem.toList || (stem.toList ++ ['-']).isPrefixOf model)).map Prod.fst

/-- The text both readers search: the provider, a blank, the model. -/
def familyText (provider : Option String) (model : String) : List Char :=
  (provider.getD "").toList ++ ' ' :: model.toList

/-- `family_sql`. -/
def familySql (provider : Option String) (model : String) : Option String :=
  familyOf ((familyText provider model).map Char.toLower) (model.toList.map Char.toLower)

/-! ## 2. Who may not be handed a review -/

/-- `shared_family`: the author's family of the change `thread` reviews, when some usage record
of `member` in the thread's workspace names it. -/
def sharedFamily (db : Db) (member : MemberId) (thread : ThreadId) : Option String :=
  match db.threadAttributes.get? thread, db.threads.get? thread with
  | some ra, some rt =>
    match ra.authorFamily, db.workspaceOf rt with
    | some family, some ws =>
      if db.usageLedger.rows.any (fun ul =>
          ul.reporterId = member ∧ ul.workspaceId = ws ∧
            familySql ul.provider ul.model = some family) then
        some family
      else none
    | _, _ => none
  | _, _ => none

/-- `refused_to`. -/
def refusedTo (db : Db) (member : MemberId) (thread : ThreadId) : Bool :=
  (sharedFamily db member thread).isSome

/-- `same_family_refusal`. -/
def sameFamilyRefusal (family : String) : StoreError :=
  .conflict ("this review's change was written by the " ++ family ++
    " family, and this member's usage names " ++ family ++
    "; a review goes to a member of another family")

/-- `refuse_same_family_in_tx`. -/
def refuseSameFamilyInTx (db : Db) (thread : ThreadId) (member : MemberId) :
    Except StoreError Unit :=
  match sharedFamily db member thread with
  | some family => .error (sameFamilyRefusal family)
  | none => .ok ()

end Maidan
