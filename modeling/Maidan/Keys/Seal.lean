/-
# The key hierarchy

The words of a message are sealed under a DATA KEY of their own; the data key is stored wrapped by
its WORKSPACE KEY; and the workspace key is stored wrapped by a CUSTODY -- the instance KEKs or a
cloud KMS (`content_seal.rs`).

The cipher is a parameter (`Cipher`): keys, blobs and sealed words are of any type, and what a
result needs of them is a named law.  So is a custody (`Custody`, the trait
`WorkspaceKeyCustody`); the local one is translated.  A custody may refuse any call (`Refusals`), and
what it has destroyed it never opens again.

The keyring keeps opened workspace keys in memory for some minutes, each with the stored form it was
opened from, and opens a stored form again when it differs.  That cache changes who is asked and not
what the answer is, and is left out: `openWorkspaceKey` opens the stored form.
-/
import Maidan.Lib.Run
import Maidan.Types

namespace Maidan

open Run

/-! ## 1. Ciphers -/

/-- A `kek_id`: the name of an instance KEK or of a custody's wrapping key, or `w:` followed by the
id of a workspace key. -/
inductive KekId
  | named (name : String)
  | workspace (id : WorkspaceKeyId)
deriving DecidableEq, Repr

/-- `parse_workspace_kek_id`. -/
def parseWorkspaceKekId : KekId → Option WorkspaceKeyId
  | .named _ => none
  | .workspace id => some id

/-- The errors of a seal that a store call can meet. -/
inductive SealError
  | malformed
  | authentication
  | unknownKek (kekId : KekId)
  | refused
  | unavailable
deriving DecidableEq, Repr

/-- The associated data a wrap is bound to: `wrap_aad` and `workspace_wrap_aad`. -/
inductive WrapAad
  | dataKey (subject : ContentKeyId)
  | workspaceKey (id : WorkspaceKeyId)
deriving DecidableEq, Repr

/-- **What sealing is done with.**  Keys are drawn from a generator, and so are nonces: the `Nat` a
seal takes is the draw of its nonce. -/
structure Cipher (κ β ω σ : Type) where
  /-- `ContentKey::generate`. -/
  generate : Nat → κ
  /-- `Kek::seal`. -/
  sealKey : κ → WrapAad → κ → Nat → β
  /-- `Kek::open`. -/
  openKey : κ → WrapAad → β → Option κ
  /-- The encryption in `seal_payload`, bound to the message. -/
  sealWords : κ → MessageId → ω → Nat → σ
  /-- The decryption in `open_payload`. -/
  openWords : κ → MessageId → σ → Option ω
  /-- The words of a message whose words were taken out. -/
  noWords : ω
  /-- The opened words put in place, field by field, over what the message has. -/
  restore : ω → ω → ω

section Keyring

variable {κ β ω σ : Type} (c : Cipher κ β ω σ)

/-- **A wrapped key opens**, under the key and for the name it was wrapped with. -/
def Cipher.Unwraps : Prop :=
  ∀ kek aad key nonce, c.openKey kek aad (c.sealKey kek aad key nonce) = some key

/-- `WrappedKey`. -/
structure WrappedKey (β : Type) where
  kekId : KekId
  blob : β

/-! ## 2. Custodies -/

/-- `WorkspaceKeyCustody`: who wraps workspace keys. -/
structure Custody (κ β : Type) where
  name : String
  /-- Matches `current_wrapping_like`. -/
  current : KekId → Bool
  owns : KekId → Bool
  wrap : WorkspaceKeyId → κ → Nat → WrappedKey β
  unwrap : WorkspaceKeyId → WrappedKey β → Except SealError κ

/-- **What the trait asks of a custody**: it owns what it wraps, and opens it again. -/
structure Custody.Lawful (custody : Custody κ β) : Prop where
  owns_wrap : ∀ id key nonce, custody.owns (custody.wrap id key nonce).kekId = true
  unwrap_wrap : ∀ id key nonce, custody.unwrap id (custody.wrap id key nonce) = .ok key

/-- `Kek`. -/
structure Kek (κ : Type) where
  id : String
  key : κ

/-- `LocalCustody`: the instance KEKs. -/
structure LocalCustody (κ : Type) where
  primary : Kek κ
  previous : List (Kek κ) := []

/-- `LocalCustody::kek`. -/
def LocalCustody.kek (custody : LocalCustody κ) (kekId : KekId) : Except SealError (Kek κ) :=
  match (custody.primary :: custody.previous).find? fun kek => KekId.named kek.id = kekId with
  | some kek => .ok kek
  | none => .error (.unknownKek kekId)

/-- What an opened blob is worth. -/
def authenticated {α : Type} : Option α → Except SealError α
  | some a => .ok a
  | none => .error .authentication

/-- The local custody as one. -/
def LocalCustody.custody (c : Cipher κ β ω σ) (custody : LocalCustody κ) : Custody κ β where
  name := "local"
  current kekId := kekId = .named custody.primary.id
  owns kekId := (custody.kek kekId).isOk
  wrap id key nonce :=
    { kekId := .named custody.primary.id
      blob := c.sealKey custody.primary.key (.workspaceKey id) key nonce }
  unwrap id wrapped := do
    let kek ← custody.kek wrapped.kekId
    authenticated (c.openKey kek.key (.workspaceKey id) wrapped.blob)

theorem LocalCustody.kek_primary (custody : LocalCustody κ) :
    custody.kek (.named custody.primary.id) = .ok custody.primary := by
  simp [LocalCustody.kek]

/-- **The instance KEKs are a custody.** -/
theorem LocalCustody.lawful {c : Cipher κ β ω σ} (hc : c.Unwraps) (custody : LocalCustody κ) :
    (custody.custody c).Lawful where
  owns_wrap := by
    intro id key nonce
    simp only [LocalCustody.custody, LocalCustody.kek_primary]
    rfl
  unwrap_wrap := by
    intro id key nonce
    simp only [LocalCustody.custody, LocalCustody.kek_primary, bind, Except.bind,
      hc custody.primary.key, authenticated]

/-! ## 3. The keyring -/

/-- `ContentKeyring`. -/
structure ContentKeyring (κ β : Type) where
  localCustody : LocalCustody κ
  custody : Custody κ β

/-- The calls of one operation to the custody, each named by the key it is about and the data key it
is made for. -/
inductive CustodyCall
  | unwrap (id : WorkspaceKeyId) (subject : Option ContentKeyId)
  | wrap (id : WorkspaceKeyId) (subject : Option ContentKeyId)
  | destroy (id : WorkspaceKeyId)

/-- **Which calls fail, and how**; the others are answered. -/
abbrev Refusals := CustodyCall → Option SealError

/-- A call that may be refused. -/
def ask (refuses : Refusals) (call : CustodyCall) : Except SealError Unit :=
  match refuses call with
  | some e => .error e
  | none => .ok ()

variable (keys : ContentKeyring κ β)

/-- `ContentKeyring::owner`. -/
def ContentKeyring.owner (kekId : KekId) : Except SealError (Custody κ β) :=
  if keys.custody.owns kekId then .ok keys.custody
  else if (keys.localCustody.custody c).owns kekId then .ok (keys.localCustody.custody c)
  else .error (.unknownKek kekId)

/-- What a stored workspace key opens to, when the custody answers. -/
def ContentKeyring.stored (id : WorkspaceKeyId) (wrapped : WrappedKey β) : Except SealError κ := do
  let custody ← keys.owner c wrapped.kekId
  custody.unwrap id wrapped

/-- **`open_workspace_keys`**, for one key.  A key the custody has destroyed is refused. -/
def ContentKeyring.openWorkspaceKey (destroyed : List WorkspaceKeyId) (refuses : Refusals)
    (subject : Option ContentKeyId) (id : WorkspaceKeyId) (wrapped : WrappedKey β) :
    Except SealError κ := do
  ask refuses (.unwrap id subject)
  if id ∈ destroyed then .error .refused
  else keys.stored c id wrapped

/-- `journalled_wrap`: the configured custody wraps. -/
def ContentKeyring.journalledWrap (refuses : Refusals) (subject : Option ContentKeyId)
    (id : WorkspaceKeyId) (key : κ) (nonce : Nat) : Except SealError (WrappedKey β) := do
  ask refuses (.wrap id subject)
  .ok (keys.custody.wrap id key nonce)

/-- `wrap_for_workspace`, under the open workspace key `workspaceKey`. -/
def wrapForWorkspace (id : WorkspaceKeyId) (workspaceKey : κ) (subject : ContentKeyId) (key : κ)
    (nonce : Nat) : WrappedKey β :=
  { kekId := .workspace id, blob := c.sealKey workspaceKey (.dataKey subject) key nonce }

/-- `ContentKeyring::unwrap`, with the workspace key that is open, if any. -/
def ContentKeyring.unwrap (opened : Option (WorkspaceKeyId × κ)) (subject : ContentKeyId)
    (wrapped : WrappedKey β) : Except SealError κ :=
  match parseWorkspaceKekId wrapped.kekId with
  | some id =>
    match opened with
    | some (id', workspaceKey) =>
      if id' = id then authenticated (c.openKey workspaceKey (.dataKey subject) wrapped.blob)
      else .error (.unknownKek wrapped.kekId)
    | none => .error (.unknownKek wrapped.kekId)
  | none => do
    let kek ← keys.localCustody.kek wrapped.kekId
    authenticated (c.openKey kek.key (.dataKey subject) wrapped.blob)

/-- **A stored form the custody has just made opens.** -/
theorem ContentKeyring.stored_wrap {c : Cipher κ β ω σ} {keys : ContentKeyring κ β}
    (h : keys.custody.Lawful) (id : WorkspaceKeyId) (key : κ) (nonce : Nat) :
    keys.stored c id (keys.custody.wrap id key nonce) = .ok key := by
  unfold ContentKeyring.stored ContentKeyring.owner
  rw [if_pos (h.owns_wrap id key nonce)]
  exact h.unwrap_wrap id key nonce

theorem ContentKeyring.openWorkspaceKey_eq_ok {c : Cipher κ β ω σ} {keys : ContentKeyring κ β}
    {id : WorkspaceKeyId}
    (h : keys.openWorkspaceKey c destroyed refuses subject id wrapped = .ok key) :
    id ∉ destroyed ∧ keys.stored c id wrapped = .ok key := by
  obtain ⟨-, -, h⟩ := bind_ok h
  split at h
  · cases h
  exact ⟨‹_›, h⟩

theorem ContentKeyring.journalledWrap_eq_ok {keys : ContentKeyring κ β} {id : WorkspaceKeyId}
    (h : keys.journalledWrap refuses subject id key nonce = .ok wrapped) :
    wrapped = keys.custody.wrap id key nonce := by
  obtain ⟨-, -, h⟩ := bind_ok h
  exact (Except.ok.inj h).symm

end Keyring

/-! ## 4. A cipher of boxes -/

/-- What is sealed, with the key and the name it was sealed under. -/
abbrev Box (ν α : Type) := Nat × ν × α

/-- Only the same key and the same name open a box. -/
def Box.unlock {ν α : Type} [DecidableEq ν] (key : Nat) (name : ν) : Box ν α → Option α
  | (key', name', content) => if key' = key ∧ name' = name then some content else none

/-- **The cipher that runs can be computed with**: keys are numbers, each drawn once, and what is
sealed is a box. -/
def boxCipher : Cipher Nat (Box WrapAad Nat) String (Box MessageId String) where
  generate n := n + 2
  sealKey kek aad key _ := (kek, aad, key)
  openKey := Box.unlock
  sealWords key message words _ := (key, message, words)
  openWords := Box.unlock
  noWords := ""
  restore _ words := words

theorem boxCipher_unwraps : boxCipher.Unwraps := by
  intro kek aad key nonce
  simp [boxCipher, Box.unlock]

/-- A keyring with two instance KEKs, the first of them in use. -/
def boxKeyring : ContentKeyring Nat (Box WrapAad Nat) :=
  let custody : LocalCustody Nat :=
    { primary := { id := "k2", key := 1 }, previous := [{ id := "k1", key := 0 }] }
  { localCustody := custody, custody := custody.custody boxCipher }

theorem boxKeyring_lawful : boxKeyring.custody.Lawful := LocalCustody.lawful boxCipher_unwraps _

end Maidan
