import TalaPala.Clock
import TalaPala.News.Urls
import TalaPala.Library.Writes
import TalaPala.Library.Latest
import Mathlib.Data.List.Lex
import Mathlib.Data.Char

namespace TalaPala.News

open Library Library.ChangeLog

inductive Node
  | element (tag text : Text) (children : List Node)

def Node.tag : Node → Text
  | .element tag _ _ => tag

def Node.text : Node → Text
  | .element _ text _ => text

def Node.children : Node → List Node
  | .element _ _ children => children

mutual

/-- `root.iter()`, in document order. -/
def Node.iter : Node → List Node
  | .element tag text children => .element tag text children :: iterAll children

def iterAll : List Node → List Node
  | [] => []
  | node :: rest => node.iter ++ iterAll rest

end

section Parsing

def localName (tag : Text) : Text := afterLast '}' tag

def childText (node : Node) (name : Text) : Text :=
  match node.children.find? (fun child ↦ localName child.tag = name) with
  | none => []
  | some child => strip child.text

def childrenNamed (node : Node) (name : Text) : List Node :=
  node.children.filter (fun child ↦ localName child.tag = name)

/-- `", ".join` of the parts that are not empty. -/
def joined (separator : Text) (parts : List Text) : Text :=
  List.intercalate separator (parts.filter (· ≠ []))

def entryName (entry : Node) : Text :=
  let name := strip (joined [' '] [childText entry "firstName".toList,
    childText entry "lastName".toList])
  if name ≠ [] then name else childText entry "lastName".toList

/-- `sorted(set(values))`. -/
def sortedSet (values : List Text) : List Text := values.dedup.insertionSort (· ≤ ·)

def listValues (entry : Node) (listTag itemTag : String) (fields : List String) : List Text :=
  sortedSet (((childrenNamed entry listTag.toList).flatMap (fun container ↦
    (childrenNamed container itemTag.toList).map (fun item ↦
      joined [',', ' '] (fields.map (fun field ↦ childText item field.toList))))).filter (· ≠ []))

def programsOf (entry : Node) : List Text :=
  sortedSet (((childrenNamed entry "programList".toList).flatMap (fun container ↦
    (childrenNamed container "program".toList).map (fun item ↦ strip item.text))).filter (· ≠ []))

structure SdnRecord where
  uid : Text
  name : Text
  sdnType : Text
  title : Text
  remarks : Text
  programs : List Text
  akas : List Text
  addresses : List Text
  ids : List Text
  nationalities : List Text
  citizenships : List Text
  datesOfBirth : List Text
  placesOfBirth : List Text

def recordOf (entry : Node) (uid : Text) : SdnRecord where
  uid := uid
  name := entryName entry
  sdnType := childText entry "sdnType".toList
  title := childText entry "title".toList
  remarks := childText entry "remarks".toList
  programs := programsOf entry
  akas := listValues entry "akaList" "aka" ["type", "category", "firstName", "lastName"]
  addresses := listValues entry "addressList" "address"
    ["address1", "city", "stateOrProvince", "country"]
  ids := listValues entry "idList" "id" ["idType", "idNumber", "idCountry"]
  nationalities := listValues entry "nationalityList" "nationality" ["country"]
  citizenships := listValues entry "citizenshipList" "citizenship" ["country"]
  datesOfBirth := listValues entry "dateOfBirthList" "dateOfBirthItem" ["dateOfBirth"]
  placesOfBirth := listValues entry "placeOfBirthList" "placeOfBirthItem" ["placeOfBirth"]

structure Snapshot where
  records : List SdnRecord
  distinct : (records.map SdnRecord.uid).Nodup

namespace Snapshot

def empty : Snapshot := ⟨[], List.nodup_nil⟩

/-- `records[uid] = record`. -/
def set (snapshot : Snapshot) (record : SdnRecord) : Snapshot where
  records := snapshot.records.filter (fun r ↦ r.uid ≠ record.uid) ++ [record]
  distinct := by
    rw [List.map_append, List.nodup_append]
    refine ⟨snapshot.distinct.sublist (List.filter_sublist.map _), List.nodup_singleton _, ?_⟩
    intro uid huid uid' huid'
    obtain ⟨r, hr, rfl⟩ := List.mem_map.mp huid
    obtain rfl := List.mem_singleton.mp huid'
    exact of_decide_eq_true (List.mem_filter.mp hr).2

def get (snapshot : Snapshot) (uid : Text) : Option SdnRecord :=
  snapshot.records.find? (fun r ↦ r.uid = uid)

end Snapshot

structure Documents where
  /-- `parse_xml`, with its size cap; `none` where it gives None. -/
  parseXml : Text → Option Node
  parseXml_nil : parseXml [] = none
  sha256 : Text → Text

variable (docs : Documents)

def parseSdn (body : Text) : Snapshot :=
  match docs.parseXml body with
  | none => .empty
  | some root =>
    (root.iter.filter (fun entry ↦ localName entry.tag = "sdnEntry".toList)).foldl
      (fun snapshot entry ↦
        let uid := childText entry "uid".toList
        if uid = [] then snapshot else snapshot.set (recordOf entry uid)) .empty

end Parsing

section Diff

/-- COMPARED_FIELDS, with what `record.get` gives. -/
def comparedFields : List (String × (SdnRecord → List Text)) :=
  [("name", fun r ↦ [r.name]), ("sdn_type", fun r ↦ [r.sdnType]), ("title", fun r ↦ [r.title]),
    ("remarks", fun r ↦ [r.remarks]), ("programs", SdnRecord.programs), ("akas", SdnRecord.akas),
    ("addresses", SdnRecord.addresses), ("ids", SdnRecord.ids),
    ("nationalities", SdnRecord.nationalities), ("citizenships", SdnRecord.citizenships),
    ("dates_of_birth", SdnRecord.datesOfBirth), ("places_of_birth", SdnRecord.placesOfBirth)]

def compared (record : SdnRecord) : List (List Text) := comparedFields.map (fun f ↦ f.2 record)

structure SdnChange where
  uid : Text
  change : ChangeKind
  record : Option SdnRecord
  previous : Option SdnRecord
  changedFields : List Text
  programs : List Text

def changeOrder : ChangeKind → ℕ
  | .added => 0
  | .modified => 1
  | .removed => 2

def changedFields (before after : SdnRecord) : List Text :=
  ((comparedFields.filter (fun f ↦ f.2 before ≠ f.2 after)).map (fun f ↦ f.1.toList)).insertionSort
    (· ≤ ·)

def addedChange (record : SdnRecord) : SdnChange :=
  ⟨record.uid, .added, some record, none, [], record.programs⟩

def removedChange (record : SdnRecord) : SdnChange :=
  ⟨record.uid, .removed, none, some record, [], record.programs⟩

def modifiedChange (before after : SdnRecord) : Option SdnChange :=
  if changedFields before after = [] then none
  else some ⟨after.uid, .modified, some after, some before, changedFields before after,
    after.programs⟩

def changeKey (change : SdnChange) : ℕ ×ₗ Text := toLex (changeOrder change.change, change.uid)

def diffSnapshots (previous current : Snapshot) : List SdnChange :=
  let added := (current.records.filter (fun r ↦ (previous.get r.uid).isNone)).map addedChange
  let removed := (previous.records.filter (fun r ↦ (current.get r.uid).isNone)).map removedChange
  let modified := current.records.filterMap (fun after ↦
    (previous.get after.uid).bind (fun before ↦ modifiedChange before after))
  (added ++ removed ++ modified).insertionSort (fun a b ↦ changeKey a ≤ changeKey b)

end Diff

structure PayloadRow where
  id : ℕ
  fetchedAt : Instant
  bodySha256 : Text
  body : Text
  truncated : Bool

structure Provenance where
  change : ChangeKind
  uid : Text
  changedFields : List Text
  programs : List Text
  record : Option SdnRecord
  previousValues : Option (List (Text × List Text))
  snapshotSha256 : Text
  previousSnapshotSha256 : Text

structure CollectedArticle where
  canonical : Text
  sourcePublishedAt : Option Instant
  publishedAtIsEstimated : Bool
  availableAt : Instant
  externalId : Text
  provenance : Provenance

/-- The source's rows in `news_articles`. -/
structure ArticleRow where
  canonicalUrl : Text
  externalId : Text
  publishedAt : Instant
  publishedAtEstimated : Bool
  ingestedAt : Instant
  lastSeenAt : Instant
  availableAt : Instant
  rawPayloadId : ℕ
  provenance : Provenance

/-- The source's rows, in the order in which they were inserted. -/
structure NewsStore where
  payloads : List PayloadRow
  articles : List ArticleRow

def NewsStore.empty : NewsStore := ⟨[], []⟩

section Articles

def changeName : ChangeKind → Text
  | .added => "added".toList
  | .modified => "modified".toList
  | .removed => "removed".toList

def urnScheme : Text := "urn:ofac:sdn:".toList

def changeUrn (uid : Text) (change : ChangeKind) (sha : Text) : Text :=
  urnScheme ++ uid ++ ':' :: changeName change ++ ':' :: sha.take 12

def buildArticle (snapshotSha previousSha : Text) (fetchedAt : Instant) (change : SdnChange) :
    CollectedArticle where
  canonical := changeUrn change.uid change.change snapshotSha
  sourcePublishedAt := none
  publishedAtIsEstimated := true
  availableAt := fetchedAt
  externalId := change.uid
  provenance :=
    { change := change.change
      uid := change.uid
      changedFields := change.changedFields
      programs := change.programs
      record := change.record
      previousValues := if change.changedFields = [] then none else change.previous.map (fun r ↦
        (comparedFields.filter (fun f ↦ f.1.toList ∈ change.changedFields)).map
          (fun f ↦ (f.1.toList, f.2 r)))
      snapshotSha256 := snapshotSha
      previousSnapshotSha256 := previousSha }

structure StoreCounts where
  itemsSeen : ℕ
  itemsNew : ℕ
  itemsDuplicate : ℕ

def rowOf (rawPayloadId : ℕ) (fetchedAt : Instant) (article : CollectedArticle) : ArticleRow where
  canonicalUrl := article.canonical
  externalId := article.externalId
  publishedAt := article.sourcePublishedAt.getD article.availableAt
  publishedAtEstimated := article.publishedAtIsEstimated
  ingestedAt := fetchedAt
  lastSeenAt := fetchedAt
  availableAt := article.availableAt
  rawPayloadId := rawPayloadId
  provenance := article.provenance

def touch (keys : List Text) (fetchedAt : Instant) (row : ArticleRow) : ArticleRow :=
  if row.canonicalUrl ∈ keys then { row with lastSeenAt := fetchedAt } else row

def storeArticles (rawPayloadId : ℕ) (fetchedAt : Instant) :
    List CollectedArticle → List Text → List ArticleRow → StoreCounts →
      List ArticleRow × StoreCounts
  | [], _, rows, counts => (rows, counts)
  | article :: rest, seen, rows, counts =>
    let counts := { counts with itemsSeen := counts.itemsSeen + 1 }
    let duplicate := { counts with itemsDuplicate := counts.itemsDuplicate + 1 }
    if article.canonical = [] ∨ article.canonical ∈ seen then
      storeArticles rawPayloadId fetchedAt rest seen rows duplicate
    else if article.canonical ∈ rows.map ArticleRow.canonicalUrl then
      storeArticles rawPayloadId fetchedAt rest (article.canonical :: seen)
        (rows.map (touch [article.canonical] fetchedAt)) duplicate
    else
      storeArticles rawPayloadId fetchedAt rest (article.canonical :: seen)
        (rows ++ [rowOf rawPayloadId fetchedAt article])
        { counts with itemsNew := counts.itemsNew + 1 }

end Articles

inductive Stop
  | beforeSnapshot
  | beforeArticles
  | beforeFinish
  | completes
  deriving DecidableEq

structure Fetched where
  statusCode : Option ℤ
  text : Text
  receivedAt : Instant

structure CollectPass where
  gated : Bool
  /-- `none` where the fetch raises. -/
  response : Option Fetched
  dryRun : Bool
  stop : Stop

inductive ErrorClass
  | fetchError
  | httpStatus
  | noEntriesParsed
  | payloadTooLarge

inductive BaselineReason
  | firstSnapshot
  | previousUnusable
  | previousUnparseable

inductive Comparison
  | unchanged (rawPayloadId : ℕ)
  | baseline (reason : BaselineReason)
  | against (previousSha : Text) (previous : Snapshot)

inductive CollectOutcome
  | skipped
  | failed (errorClass : ErrorClass)
  | unchangedSnapshot (rawPayloadId : ℕ)
  | dry (changes : List SdnChange)
  | stopped
  | collected (changes : List SdnChange) (counts : StoreCounts)

structure Arrival where
  body : Text
  current : Snapshot
  receivedAt : Instant

def maxStoredBodyChars : ℕ := 64000000

section Collect

variable (docs : Documents)

def receive (pass : CollectPass) : Except CollectOutcome Arrival :=
  if pass.gated then .error .skipped
  else match pass.response with
    | none => .error (.failed .fetchError)
    | some response =>
      if response.statusCode.any (· ≠ 200) then .error (.failed .httpStatus)
      else if (parseSdn docs response.text).records = [] then .error (.failed .noEntriesParsed)
      else if maxStoredBodyChars < response.text.length then .error (.failed .payloadTooLarge)
      else .ok ⟨response.text, parseSdn docs response.text, response.receivedAt⟩

/-- `latest_raw_payload`. -/
def latestRawPayload (rows : List PayloadRow) : Option PayloadRow :=
  (latest (fun row ↦ (toLex (row.fetchedAt, row.id) : Instant ×ₗ ℕ)) 1 rows).head?

def comparison (rows : List PayloadRow) (arrival : Arrival) : Comparison :=
  match latestRawPayload rows with
  | none => .baseline .firstSnapshot
  | some row =>
    if row.bodySha256 = docs.sha256 arrival.body then .unchanged row.id
    else if row.truncated ∨ row.body = [] then .baseline .previousUnusable
    else if (parseSdn docs row.body).records = [] then .baseline .previousUnparseable
    else .against row.bodySha256 (parseSdn docs row.body)

def Comparison.changes (current : Snapshot) : Comparison → List SdnChange
  | .against _ previous => diffSnapshots previous current
  | _ => []

def Comparison.previousSha : Comparison → Text
  | .against previousSha _ => previousSha
  | _ => []

/-- `store_raw_payload`. -/
def payloadRow (rows : List PayloadRow) (arrival : Arrival) : PayloadRow where
  id := rows.length + 1
  fetchedAt := arrival.receivedAt
  bodySha256 := docs.sha256 arrival.body
  body := arrival.body.take maxStoredBodyChars
  truncated := (arrival.body.take maxStoredBodyChars).length < arrival.body.length

def derive (s : NewsStore) (arrival : Arrival) (against : Comparison) (stop : Stop) :
    NewsStore × CollectOutcome :=
  let row := payloadRow docs s.payloads arrival
  let changes := against.changes arrival.current
  let articles := changes.map
    (buildArticle (docs.sha256 arrival.body) against.previousSha arrival.receivedAt)
  let stored := storeArticles row.id arrival.receivedAt articles [] s.articles ⟨0, 0, 0⟩
  match stop with
  | .beforeSnapshot => (s, .stopped)
  | .beforeArticles => ({ s with payloads := s.payloads ++ [row] }, .stopped)
  | .beforeFinish => (⟨s.payloads ++ [row], stored.1⟩, .stopped)
  | .completes => (⟨s.payloads ++ [row], stored.1⟩, .collected changes stored.2)

def collect (s : NewsStore) (pass : CollectPass) : NewsStore × CollectOutcome :=
  match receive docs pass with
  | .error outcome => (s, outcome)
  | .ok arrival =>
    match comparison docs s.payloads arrival with
    | .unchanged rawPayloadId => (s, .unchangedSnapshot rawPayloadId)
    | against =>
      if pass.dryRun then (s, .dry (against.changes arrival.current))
      else derive docs s arrival against pass.stop

end Collect

end TalaPala.News
