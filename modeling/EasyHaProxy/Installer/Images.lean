import EasyHaProxy.Installer.UpdatePlan
import EasyHaProxy.Lib.Mapping
import EasyHaProxy.Lib.Text
import EasyHaProxy.Lib.Validate
import Mathlib.Data.List.Lex

/-! How a check probes the images of a Compose file: what is installed, what the registry has, and what the
containers really run. Docker lists images and containers in no fixed order. -/
namespace EasyHaProxy.Installer.Checks

open Yaml Mapping Keyed
open Validate (sortedSet)

/-- The `details` of a component, but for what the planner's entry holds: reason, requirements, scope and web
trees. -/
abbrev Details := PyDict String Value

/-- A component of a plan as `_component` makes it. -/
structure Component where
  id : ComponentId
  entry : PlanEntry
  installed : Value
  available : Value
  candidate : Value
  details : Details

/-- `_component`; no reason is the empty one. -/
def component (id : ComponentId) (state : ComponentState) (reason : String) (installed available : Value)
    (details : List (String × Value)) : Component :=
  ⟨id, { state, reason }, installed, available, available, collect details⟩

def text (l : List Char) : Value := .str (String.ofList l)

def optional {α : Type} (f : α → Value) : Option α → Value
  | some a => f a
  | none => .null

/-! ## References -/

abbrev Reference := List Char

/-- `[0-9a-f]`. -/
def isHex (c : Char) : Bool := '0' ≤ c && c ≤ '9' || 'a' ≤ c && c ≤ 'f'

def unprintable (c : Char) : Bool := Text.isSpace c || decide (c.toNat < 32)

/-- `image[:last_colon]` and what follows the colon, when it stands after the last slash. -/
def splitTag (image : Reference) : Option (Reference × Reference) :=
  let separator := fun c => c != ':' && c != '/'
  match image.reverse.dropWhile separator with
  | ':' :: rest => some (rest.reverse, (image.reverse.takeWhile separator).reverse)
  | _ => none

/-- `_image_repository`. -/
def imageRepository (image : Reference) : Option Reference :=
  if image = [] || image.head? = some '-' || decide ([':', '/', '/'] <:+: image) || image.any unprintable then none
  else
    let withoutDigest := image.takeWhile (· != '@')
    let repository := ((splitTag withoutDigest).map Prod.fst).getD withoutDigest
    if repository = [] then none else some repository

/-- `_tagged_image`. -/
def taggedImage (image channel : Reference) : Option Reference :=
  (imageRepository image).map fun repository => repository ++ ':' :: channel

/-- `_normalized_tagged_image`. -/
def normalizedTaggedImage (image : Reference) : Option Reference :=
  if '@' ∈ image then none
  else (imageRepository image).map fun repository =>
    repository ++ ':' :: ((splitTag image).map Prod.snd).getD ['l', 'a', 't', 'e', 's', 't']

def sha256 : List Char := ['s', 'h', 'a', '2', '5', '6', ':']

/-- `_DIGEST_RE.search`. -/
def searchDigest : List Char → Option (List Char)
  | [] => none
  | c :: l =>
    let digits := ((c :: l).drop 7).take 64
    if sha256.isPrefixOf (c :: l) && decide (digits.length = 64) && digits.all isHex then some (sha256 ++ digits)
    else searchDigest l

/-- The references `_probe_image` does not look at. -/
def invalidReference (image : Reference) : Bool :=
  image = [] || decide (512 < image.length) || image.head? = some '-' || image.any unprintable ||
    decide ([':', '/', '/'] <:+: image) || '?' ∈ image || '&' ∈ image ||
    '@' ∈ image && !decide (('@' :: sha256) <:+: image)

/-! ## What Docker and the registry say -/

/-- An image's layers and the part of its configuration a container runs with. -/
structure ImageContent where
  layers : List String
  runtime : List (String × String)
  deriving DecidableEq

/-- What the commands of a check read, by the reference they are given. -/
structure Docker where
  localDigest : Reference → Option (List Char)
  localError : Reference → String
  remoteDigest : Reference → Option (List Char)
  remoteError : Reference → String
  /-- Is the image here, asked for by its content? -/
  present : Reference → Bool
  /-- `_image_content`. -/
  imageContent : Reference → Option ImageContent
  /-- `_local_web_tree` and `_remote_web_tree`. -/
  localWebTree : Reference → Option String
  remoteWebTree : Reference → Option String
  /-- The reference and the image of each container. -/
  inspect : List Reference → Option (List (Reference × Reference))

/-- A Compose file, and what Docker lists of it. -/
structure Stack where
  composeFile : String
  isFile : Bool
  /-- Why the images could not be listed, and whether Docker is missing at all. -/
  failure : Option (Bool × String)
  images : List Reference
  containers : Option (List Reference)

/-- The same stack, listed in another order. -/
structure Stack.Reordered (s s' : Stack) : Prop where
  composeFile : s.composeFile = s'.composeFile
  isFile : s.isFile = s'.isFile
  failure : s.failure = s'.failure
  images : s.images.Perm s'.images
  containers : Option.Rel List.Perm s.containers s'.containers

/-! ## One image -/

/-- One of the `images` of a component. -/
structure ImageDetail where
  state : ComponentState
  reason : Option String
  target : Option Reference
  rest : Fields

def stateText : ComponentState → String
  | .available => "available"
  | .current => "current"
  | .unknown => "unknown"
  | .blocked => "blocked"

def ImageDetail.value (d : ImageDetail) : Value :=
  .map ([("state", .str (stateText d.state))] ++ (d.reason.map fun r => ("reason", Value.str r)).toList ++
    (d.target.map fun t => ("target_image", text t)).toList ++ d.rest)

/-- `_probe_image`. -/
def probeImage (docker : Docker) (image : Reference) : ImageDetail :=
  if invalidReference image then
    ⟨.unknown, some "invalid-image-reference", none, [("image", .str "<invalid>")]⟩
  else if ('@' :: sha256) <:+: image then
    let digest := optional text (searchDigest (image.map Char.toLower))
    ⟨.current, some "digest-pinned", none,
      [("image", text image), ("current_digest", digest), ("available_digest", digest)]⟩
  else if sha256.isPrefixOf image ||
      decide (12 ≤ image.length) && decide (image.length ≤ 64) && (image.map Char.toLower).all isHex then
    ⟨.unknown, some "non-registry-reference", none, [("image", text image)]⟩
  else
    let remote := docker.remoteDigest image
    -- the tag can go missing while the image stays
    let byContent := docker.localDigest image = none &&
      (remote.bind fun digest => (imageRepository image).map fun repository =>
        docker.present (repository ++ '@' :: digest)).getD false
    let held := if byContent then remote else docker.localDigest image
    let rest := [("image", text image), ("current_digest", optional text held),
      ("available_digest", optional text remote)]
    match held, remote with
    | none, _ => ⟨.unknown, some "local-digest-unavailable", none,
        rest ++ [("error", .str (docker.localError image))]⟩
    | some _, none => ⟨.unknown, some "registry-digest-unavailable", none,
        rest ++ [("error", .str (docker.remoteError image))]⟩
    | some digest, some offered => ⟨if digest = offered then .current else .available,
        if byContent then some "local-tag-missing" else none, none, rest⟩

def getField (fields : Fields) (key : String) : Value := (fields.lookup key).getD .null

/-- `_probe_retargeted_image`. -/
def probeRetargetedImage (docker : Docker) (image target : Reference) : ImageDetail :=
  let current := probeImage docker image
  match getField current.rest "current_digest" with
  | .null => current
  | installed =>
    let candidate := probeImage docker target
    let offered := getField candidate.rest "available_digest"
    let rest := [("image", text image), ("current_digest", installed), ("available_digest", offered)]
    match offered with
    | .null => ⟨.unknown, some "registry-digest-unavailable", some target,
        rest ++ [("error", getField candidate.rest "error")]⟩
    | offered => ⟨if offered.equal installed then .current else .available,
        some "source-update-changes-image", some target, rest⟩

/-! ## What runs -/

/-- `_running_images`: the reference each container was started from, with the image it runs. -/
def runningImages (docker : Docker) (stack : Stack) : Option (List (Reference × Reference)) :=
  match stack.containers with
  | none => none
  | some [] => some []
  | some containers => docker.inspect (containers.insertionSort (· ≤ ·))

/-- The images of a repository that run, under whatever reference. -/
def repositoryImages (running : List (Reference × Reference)) (repository : Option Reference) : List Reference :=
  sortedSet ((running.filter fun entry => imageRepository entry.1 = repository).map Prod.snd)

/-- `_started_image_ids`. -/
def startedImageIds (tag : Reference) (running : List (Reference × Reference)) : List Reference :=
  if tag ∈ running.map Prod.fst then sortedSet (under tag running)
  else if imageRepository tag = none then []
  else repositoryImages running (imageRepository tag)

/-- `_running_web_tree`. -/
def runningWebTree (docker : Docker) (image : Reference) : Option (List (Reference × Reference)) → Option String
  | none => none
  | some [] => docker.localWebTree image
  | some running =>
    match (startedImageIds image running).map docker.localWebTree with
    | [] => none
    | tree :: trees => if tree.getD "" ≠ "" ∧ ∀ other ∈ trees, other = tree then tree else none

/-- What a container runs is noted; only an image that counted as current is judged by it. -/
def ImageDetail.judge (d : ImageDetail) (running : String) (image : Option Reference)
    (verdict : ComponentState × String) : ImageDetail :=
  let seen := { d with rest := d.rest ++ [("running", .str running)] ++
    (image.map fun id => ("running_image", text id)).toList }
  if d.state = .current then { seen with state := verdict.1, reason := some verdict.2 } else seen

/-- `_check_running`. -/
def checkRunning (docker : Docker) (detail : ImageDetail) (tag : Reference)
    (running : Option (List (Reference × Reference))) : ImageDetail :=
  if detail.state ≠ .current ∧ detail.state ≠ .available ∨ detail.reason = some "digest-pinned" then detail
  else
    match running with
    | none => detail.judge "unchecked" none (.unknown, "running-unchecked")
    | some running =>
      let started := startedImageIds tag running
      if started = [] then { detail with rest := detail.rest ++ [("running", .str "not-running")] }
      else
        let wanted := docker.imageContent tag
        let content := fun id => wanted.bind fun _ => docker.imageContent id
        match started.find? fun id => content id = none || content id ≠ wanted with
        | none => { detail with rest := detail.rest ++ [("running", .str "same-content")] }
        | some id =>
          if content id = none then
            detail.judge "unreadable" (some id) (.unknown, "running-image-unreadable")
          else detail.judge "different-content" (some id) (.available, "running-older-image")

/-! ## Authelia's stack -/

def sortedImages (stack : Stack) : List Reference := sortedSet stack.images

/-- The images of `_probe_compose`; those the source update re-pins are probed for both. -/
def composeImages (docker : Docker) (stack : Stack) (retarget : PyDict Reference Reference) : List ImageDetail :=
  let running := runningImages docker stack
  (sortedImages stack).map fun image =>
    match retarget.lookup image with
    | some target => probeRetargetedImage docker image target
    | none => checkRunning docker (probeImage docker image) image running

/-- Why the images of a stack cannot be probed, if so. -/
def Stack.unreadable (s : Stack) (id : ComponentId) : Option Component :=
  if !s.isFile then
    some (component id .blocked "compose-file-missing" .null .null [("compose_file", .str s.composeFile)])
  else s.failure.map fun failure =>
    component id (if failure.1 then .blocked else .unknown) "compose-config-failed" .null .null
      [("compose_file", .str s.composeFile), ("error", .str failure.2)]

/-- `_probe_compose`. -/
def probeCompose (docker : Docker) (stack : Stack) (retarget : PyDict Reference Reference) : Component :=
  let id := ComponentId.autheliaContainer
  (stack.unreadable id).getD <|
    let results := composeImages docker stack retarget
    let details := [("compose_file", .str stack.composeFile), ("images", .list (results.map ImageDetail.value))]
    let available := results.filter fun item => item.state = .available
    if results = [] then
      component id .unknown "no-compose-images" .null .null [("compose_file", .str stack.composeFile)]
    else if results.any fun item => item.state = .unknown then component id .unknown "" .null .null details
    else if available ≠ [] then component id .available "" .null (.int available.length) details
    else component id .current "" (.int results.length) (.int 0) details

/-! ## The web application's stack -/

/-- The configured image of the web application and its release channels. -/
structure AdminConfig where
  configuredImage : Option Reference
  configuredChannel : Reference
  targetChannel : Reference

/-- The element of a list that has no other. -/
def single {α : Type} : List α → Option α
  | [a] => some a
  | _ => none

/-- The web application's image in its Compose file: the one of the configured repository, or the only one. -/
def currentImage (config : AdminConfig) (images : List Reference) : Option Reference :=
  let repository := config.configuredImage.bind imageRepository
  (single (images.filter fun image => repository ≠ none && imageRepository image = repository)).or (single images)

/-- The replicas of the web application, under the reference of its Compose file. -/
def replicas (image : Reference) (running : Option (List (Reference × Reference))) :
    Option (List (Reference × Reference)) :=
  running.map fun running =>
    match repositoryImages running (imageRepository image) with
    | [] => running
    | ids => ids.map fun id => (image, id)

/-- Is another channel asked for than the one deployed? -/
def channelChange (config : AdminConfig) (current target : Reference) : Bool :=
  config.configuredChannel ≠ config.targetChannel || current ≠ target ||
    config.configuredImage.elim (some target) normalizedTaggedImage ≠ some target

def adminComponent (stack : Stack) (config : AdminConfig) (state : ComponentState) (installed available : Value)
    (detail : ImageDetail) (trees : ImageTrees) : Component :=
  let checked := component .adminContainer state "" installed available
    [("compose_file", .str stack.composeFile), ("configured_channel", text config.configuredChannel),
      ("target_channel", text config.targetChannel), ("images", .list [detail.value])]
  { checked with entry := { checked.entry with images := [trees] } }

/-- `_probe_admin_compose`, once the current and the target image are known. -/
def probeAdminImage (docker : Docker) (stack : Stack) (config : AdminConfig)
    (currentImage normalized target : Reference) : Component :=
  let held := docker.localDigest currentImage
  let offered := docker.remoteDigest target
  let rest := [("image", text target), ("current_image", text currentImage),
    ("current_digest", optional text held), ("available_digest", optional text offered)]
  match held, offered with
  | none, _ => adminComponent stack config .unknown .null .null ⟨.unknown, some "local-digest-unavailable",
      some target, rest ++ [("error", .str (docker.localError currentImage))]⟩ {}
  | some digest, none => adminComponent stack config .unknown (text digest) .null
      ⟨.unknown, some "registry-digest-unavailable", some target,
        rest ++ [("error", .str (docker.remoteError target))]⟩ {}
  | some digest, some candidate =>
    let running := replicas currentImage (runningImages docker stack)
    let trees := ⟨runningWebTree docker currentImage running, docker.remoteWebTree target⟩
    let unchecked : ImageDetail := ⟨if digest = candidate then .current else .available, none, some target, rest⟩
    let detail := checkRunning docker unchecked currentImage running
    if channelChange config normalized target then
      adminComponent stack config .available (text (currentImage ++ '@' :: digest)) (text (target ++ '@' :: candidate))
        { detail with state := .available, reason := some "image-channel-change" } trees
    else if digest ≠ candidate then
      adminComponent stack config .available (text digest) (text candidate) { detail with state := .available } trees
    else
      match detail.state with
      | .available => adminComponent stack config .available (text digest) (text candidate) detail trees
      | .unknown => adminComponent stack config .unknown (text digest) .null detail trees
      | _ => adminComponent stack config .current (text digest) (text candidate) detail trees

/-- `_probe_admin_compose`. -/
def probeAdminCompose (docker : Docker) (stack : Stack) (config : AdminConfig) : Component :=
  let id := ComponentId.adminContainer
  (stack.unreadable id).getD <|
    let images := stack.images.dedup
    match currentImage config images with
    | none => component id .unknown "admin-image-ambiguous" .null .null
        [("compose_file", .str stack.composeFile), ("image_count", .int images.length)]
    | some current =>
      match taggedImage (config.configuredImage.getD current) config.targetChannel, normalizedTaggedImage current with
      | some target, some normalized => probeAdminImage docker stack config current normalized target
      | _, _ => component id .unknown "invalid-image-reference" .null .null [("compose_file", .str stack.composeFile)]

/-! ## The order Docker lists in -/

section Order

variable {docker : Docker} {s s' : Stack} {config : AdminConfig} {retarget : PyDict Reference Reference}
  {α : Type} {l l' : List α}

theorem insertionSort_perm [LinearOrder α] (h : l.Perm l') :
    l.insertionSort (· ≤ ·) = l'.insertionSort (· ≤ ·) := by
  have hp := (List.perm_insertionSort (· ≤ ·) l).trans (h.trans (List.perm_insertionSort (· ≤ ·) l').symm)
  exact hp.eq_of_pairwise (fun _ _ _ _ hab hba => le_antisymm hab hba)
    (List.pairwise_insertionSort _ _) (List.pairwise_insertionSort _ _)

theorem sortedSet_perm [LinearOrder α] (h : l.Perm l') : sortedSet l = sortedSet l' :=
  insertionSort_perm h.dedup

theorem single_perm (h : l.Perm l') : single l = single l' := by
  have hlength := h.length_eq
  match l, l' with
  | [], [] => rfl
  | [a], [b] => rw [List.singleton_perm_singleton.mp h]
  | _ :: _ :: _, _ :: _ :: _ => rfl
  | [], _ :: _ => cases hlength
  | _ :: _, [] => cases hlength
  | [_], _ :: _ :: _ => cases hlength
  | _ :: _ :: _, [_] => cases hlength

theorem sortedImages_eq (h : s.Reordered s') : sortedImages s = sortedImages s' := sortedSet_perm h.images

theorem runningImages_eq (h : s.Reordered s') : runningImages docker s = runningImages docker s' := by
  have hc := h.containers
  unfold runningImages
  cases hs : s.containers with
  | none =>
    rw [hs] at hc
    cases hc' : s'.containers with
    | none => rfl
    | some _ => rw [hc'] at hc; cases hc
  | some ids =>
    rw [hs] at hc
    obtain ⟨ids', hids, hperm⟩ : ∃ ids', s'.containers = some ids' ∧ ids.Perm ids' := by
      cases hc' : s'.containers with
      | none => rw [hc'] at hc; cases hc
      | some ids' => rw [hc'] at hc; cases hc with | some hp => exact ⟨ids', rfl, hp⟩
    rw [hids]
    cases ids with
    | nil =>
      rw [hperm.nil_eq]
    | cons id ids =>
      cases ids' with
      | nil => exact absurd hperm.eq_nil (List.cons_ne_nil _ _)
      | cons id' ids' => simp only [insertionSort_perm hperm]

theorem unreadable_eq (h : s.Reordered s') (id : ComponentId) : s.unreadable id = s'.unreadable id := by
  unfold Stack.unreadable
  rw [h.composeFile, h.isFile, h.failure]

theorem probeCompose_eq (h : s.Reordered s') : probeCompose docker s retarget = probeCompose docker s' retarget := by
  have himages : composeImages docker s retarget = composeImages docker s' retarget := by
    unfold composeImages
    rw [sortedImages_eq h, runningImages_eq h]
  unfold probeCompose
  simp only [unreadable_eq h, himages, h.composeFile]

theorem currentImage_eq {images images' : List Reference} (h : images.Perm images') :
    currentImage config images = currentImage config images' := by
  unfold currentImage
  simp only [single_perm h]
  rw [single_perm (h.filter _)]

theorem probeAdminCompose_eq (h : s.Reordered s') :
    probeAdminCompose docker s config = probeAdminCompose docker s' config := by
  have himages : s.images.dedup.Perm s'.images.dedup := h.images.dedup
  have hadmin : ∀ current normalized target, probeAdminImage docker s config current normalized target =
      probeAdminImage docker s' config current normalized target := by
    intro current normalized target
    unfold probeAdminImage adminComponent
    simp only [runningImages_eq h, h.composeFile]
  unfold probeAdminCompose
  simp only [unreadable_eq h, currentImage_eq himages, himages.length_eq, h.composeFile, hadmin]

end Order

end EasyHaProxy.Installer.Checks
