/-
# What a task declares

`TaskAttributes` and `Footprint` (`task_attributes.rs`, `footprint.rs`), each with the check and
normalization it goes through before it is stored.  Every error text is the source's.
-/
import Maidan.Claim.Family

namespace Maidan

open Text

/-! ## 1. Repositories and issues -/

/-- `REPO_MAX_CHARS`. -/
def repoMaxChars : Nat := 200

/-- The spellings of a clone URL that `normalize_repo` reduces, in the order it tries them. -/
def repoUrlStarts : List String :=
  ["https://github.com/", "http://github.com/", "ssh://git@github.com/", "git@github.com:",
   "github.com/"]

/-- `owner/name` and nothing else. -/
def isOwnerName (repo : List Char) : Bool :=
  match splitOnce '/' repo with
  | none => false
  | some (owner, name) => !owner.isEmpty && !name.isEmpty && !name.contains '/'

/-- `normalize_repo`. -/
def normalizeRepo (raw : String) : Except String String :=
  let repo := toAsciiLowercase (trim raw.toList)
  let repo := (repoUrlStarts.findSome? fun start => stripStart start repo).getD repo
  let repo := stripEnd ".git" (dropEndWhile (· == '/') repo)
  if !repo.isEmpty && decide (repo.length ≤ repoMaxChars) && isOwnerName repo &&
      !(repo.any fun c => isWhitespace c || isControl c || c == '?' || c == '#' || c == ':') then
    .ok (String.ofList repo)
  else .error "repo must be \x60owner/name\x60 (or a GitHub clone URL)"

/-- `is_issue_key`. -/
def isIssueKey (key : String) : Bool :=
  match splitOnce '-' key.toList with
  | none => false
  | some (team, number) =>
    decide (utf8Len key.toList ≤ 32) && decide (2 ≤ utf8Len team) &&
      (team.head?.any Char.isUpper) && team.all (fun c => c.isUpper || c.isDigit) &&
      !number.isEmpty && number.all Char.isDigit

/-! ## 2. Attributes -/

/-- `TaskAttributes`. -/
structure TaskAttributes where
  kind : TaskKind := .change
  engine : Option TaskEngine := none
  threatModel : Bool := false
  size : Option TaskSize := none
  acceptance : Option String := none
  linearIssue : Option String := none
  tier : Option TaskTier := none
  lane : Option TaskLane := none
  reviewFamily : Option String := none
  authorFamily : Option String := none
  repo : Option String := none
deriving DecidableEq, Repr

/-- `ACCEPTANCE_MAX_CHARS`. -/
def acceptanceMaxChars : Nat := 4000

/-- An optional text, trimmed; blank reads as none. -/
def trimmedOption (s : Option String) : Option String :=
  (s.map trimStr).filter fun t => !t.isEmpty

def checkLinearIssue : Option String → Except String Unit
  | none => .ok ()
  | some key =>
    if isIssueKey key then .ok ()
    else .error ("linear_issue \x60" ++ key ++ "\x60 is not an issue key such as ENG-123")

def normalizedRepo (repo : Option String) : Except String (Option String) :=
  match trimmedOption repo with
  | none => .ok none
  | some repo =>
    match normalizeRepo repo with
    | .error e => .error ("repo: " ++ e)
    | .ok repo => .ok (some repo)

def checkAuthorFamily : Option String → Except String Unit
  | none => .ok ()
  | some family =>
    let known := providerFamilies.map Prod.fst
    if known.contains family then .ok ()
    else .error ("author_family \x60" ++ family ++ "\x60 is not a provider family; use one of " ++
      ", ".intercalate known)

def checkAcceptance : Option String → Except String Unit
  | none => .ok ()
  | some text =>
    if text.toList.length > acceptanceMaxChars then
      .error ("acceptance is at most " ++ toString acceptanceMaxChars ++ " characters")
    else if text.toList.any fun c => isControl c && c != '\n' && c != '\t' then
      .error "acceptance has no control characters"
    else .ok ()

/-- `TaskAttributes::validated`. -/
def TaskAttributes.validated (a : TaskAttributes) : Except String TaskAttributes := do
  let linearIssue := trimmedOption a.linearIssue
  checkLinearIssue linearIssue
  let repo ← normalizedRepo a.repo
  let authorFamily := (a.authorFamily.map fun f =>
    String.ofList (toAsciiLowercase (trim f.toList))).filter fun f => !f.isEmpty
  checkAuthorFamily authorFamily
  let acceptance := trimmedOption a.acceptance
  checkAcceptance acceptance
  return { a with
    linearIssue := linearIssue, repo := repo, authorFamily := authorFamily,
    acceptance := acceptance }

/-! ## 3. Footprints -/

/-- `FOOTPRINT_MAX_ITEMS`. -/
def footprintMaxItems : Nat := 200

/-- `VALUE_MAX_CHARS`. -/
def valueMaxChars : Nat := 512

/-- `FootprintKind::as_str`. -/
def FootprintKind.asStr : FootprintKind → String
  | .path => "path"
  | .glob => "glob"
  | .crate => "crate"
  | .lane => "lane"
  | .branch => "branch"
  | .slot => "slot"

/-- `FootprintKind::namespace`. -/
def FootprintKind.matchNamespace : FootprintKind → MatchNamespace
  | .path | .glob => .path
  | .crate => .crate
  | .lane => .lane
  | .branch => .branch
  | .slot => .slot

/-- `FootprintItem`. -/
structure FootprintItem where
  kind : FootprintKind
  value : String
deriving DecidableEq, Repr

/-- `strip_root`: every leading `./` and `/`. -/
def stripRoot : List Char → List Char
  | '.' :: '/' :: rest => stripRoot rest
  | '/' :: rest => stripRoot rest
  | l => l

/-- `FootprintItem::key`. -/
def FootprintItem.key (item : FootprintItem) : String :=
  match item.kind with
  | .path => String.ofList (stripRoot item.value.toList)
  | .glob => String.ofList ((stripRoot item.value.toList).takeWhile fun c =>
      !(c == '*' || c == '?' || c == '[' || c == '\x7b'))
  | _ => item.value

/-- `Footprint`. -/
structure Footprint where
  repo : String
  mode : FootprintMode
  items : List FootprintItem
deriving DecidableEq, Repr

/-- One item of `Footprint::validated`. -/
def FootprintItem.validated (item : FootprintItem) : Except String FootprintItem :=
  let value := trim item.value.toList
  let value := if item.kind = .slot then toAsciiLowercase value else value
  let item : FootprintItem := { item with value := String.ofList value }
  if value.length > valueMaxChars then
    .error ("a footprint value is at most " ++ toString valueMaxChars ++ " characters")
  else if value.any isControl then .error "a footprint value has no control characters"
  else if value.isEmpty || (item.kind != .glob && item.key.isEmpty) then
    .error ("a \x60" ++ item.kind.asStr ++ "\x60 item needs a value")
  else if (item.kind == .path || item.kind == .glob) &&
      (List.splitOn '/' value).any (· == ['.', '.']) then
    .error "a footprint path stays inside the repository (no \x60..\x60)"
  else .ok item

/-- The first occurrence of each item. -/
def firstOccurrences {α : Type} [DecidableEq α] : List α → List α
  | [] => []
  | x :: rest => x :: (firstOccurrences rest).filter (· ≠ x)

/-- `Footprint::validated`. -/
def Footprint.validated (f : Footprint) : Except String Footprint := do
  let repo ← normalizeRepo f.repo
  if f.items.length > footprintMaxItems then
    throw ("a footprint lists at most " ++ toString footprintMaxItems ++ " items")
  let items ← f.items.mapM FootprintItem.validated
  return { f with repo := repo, items := firstOccurrences items }

end Maidan
