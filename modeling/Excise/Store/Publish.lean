import Excise.Store.ScanStore

/-!
# Publishing a generation, and overlays

`publish_reporting` with both of its failure paths, and `begin_overlay_generation`, which rebuilds
the facts of a published generation outside a removed path. The stage reports are left out.
-/

namespace Excise
set_option autoImplicit false

/-- What publication works on while the active generation is out of the store. -/
structure Work where
  nextRunId : UInt64
  active : ActiveGeneration

abbrev WorkM := EStateM ScanStoreError Work

def Work.setStaging (w : Work) (s : Staging) : Work :=
  ⟨s.nextRunId, { w.active with manifest := s.manifest }⟩

def onStaging {α : Type} (c : StagingM α) : WorkM α := fun w =>
  match c ⟨w.nextRunId, w.active.manifest⟩ with
  | .ok a s => .ok a (w.setStaging s)
  | .error error s => .error error (w.setStaging s)

/-! ## Reduction -/

/-- `decode_path_observation` over a merged run. -/
def decodePaths (facts : List Fact) : Except ScanStoreError (List PathObservation) :=
  facts.mapM fun
    | .path o =>
      match o.decodeCheck with
      | .ok () => .ok o
      | .error error => .error (.PathObservation error)
    | .identity _ => .error (.PathObservation .Malformed)

def decodeIdentities (facts : List Fact) : Except ScanStoreError (List IdentityObservation) :=
  facts.mapM fun
    | .identity o => .ok o
    | .path _ => .error (.IdentityObservation .Malformed)

def writeRecords {ρ κ : Type} [LinearOrder κ] (key : ρ → κ) (descriptor : RunDescriptor)
    (records : List ρ) : Except ScanStoreError (SealedRun key) :=
  match records.foldlM RunWriter.append (RunWriter.new descriptor : RunWriter key) with
  | .error error => .error (.Run error)
  | .ok writer => .ok writer.sealRun

/-- Reads `source`, writes the records derived from it into a new run and records that run. -/
def deriveRun {ρ κ : Type} [LinearOrder κ] (key : ρ → κ) (io : Io) (pass : ReadPass)
    (source : RunDescriptor) (generation : ScanGeneration) (kind : RunKind)
    (records : Except ScanStoreError (List ρ)) : StagingM (SealedRun key) := do
  readRun io pass source
  let descriptor ← newRunWriter io generation kind
  let run ← writeRun io descriptor (records.bind (writeRecords key descriptor))
  recordAddedRun descriptor
  pure run

/-- A post-order summary under its ordinal. -/
def numbered (summaries : List DirectorySummary) : List (Nat × DirectorySummary) :=
  (List.range summaries.length).zip summaries

abbrev SummaryRun := SealedRun (Prod.fst : Nat × DirectorySummary → Nat)

abbrev ContributionRun := SealedRun (Prod.fst : FileId × AllocationContribution → FileId)

structure Reduced where
  pathObservations : FactRun
  identityObservations : FactRun
  allocationContributions : ContributionRun
  directorySummaries : SummaryRun
  pathCatalog : SealedRun PathCatalogEntry.path

def reducedSummaries (unreadable : UnreadableDirectories) (facts : List Fact) :
    Except ScanStoreError (List (Nat × DirectorySummary)) :=
  (decodePaths facts).bind fun paths =>
    match reducePathObservationRun unreadable paths with
    | .error error => .error (.PathReduction error)
    | .ok summaries => .ok (numbered summaries)

def reducedCatalog (facts : List Fact) : Except ScanStoreError (List PathCatalogEntry) :=
  (decodePaths facts).bind fun paths =>
    match buildPathCatalog paths with
    | .error error => .error (.PathCatalog error)
    | .ok rows => .ok rows

def reducedContributions (facts : List Fact) :
    Except ScanStoreError (List (FileId × AllocationContribution)) :=
  (decodeIdentities facts).bind fun identities =>
    match reduceIdentityObservations identities with
    | .error error => .error (.IdentityReduction error)
    | .ok contributions => .ok contributions

/-- `std::mem::take(&mut active.path_runs)`. -/
def takePathRuns : WorkM (RunLevels Fact.key) := fun w =>
  .ok w.active.pathRuns { w with active := { w.active with pathRuns := .empty } }

def takeIdentityRuns : WorkM (RunLevels Fact.key) := fun w =>
  .ok w.active.identityRuns { w with active := { w.active with identityRuns := .empty } }

def reduceActiveGeneration (io : Io) (generation : ScanGeneration)
    (unreadable : UnreadableDirectories) : WorkM Reduced := do
  let pathRuns ← takePathRuns
  let paths ← onStaging (mergeTieredFamily io generation .PathObservation pathRuns)
  let identityRuns ← takeIdentityRuns
  let identities ← onStaging (mergeTieredFamily io generation .IdentityObservation identityRuns)
  let summaries ← onStaging (deriveRun Prod.fst io .Reduce paths.descriptor generation
    .DirectorySummary (reducedSummaries unreadable paths.records))
  let catalog ← onStaging (deriveRun PathCatalogEntry.path io .Catalog paths.descriptor generation
    .PathCatalog (reducedCatalog paths.records))
  let contributions ← onStaging (deriveRun Prod.fst io .Identity identities.descriptor generation
    .AllocationContribution (reducedContributions identities.records))
  pure ⟨paths, identities, contributions, summaries, catalog⟩

/-! ## Publication -/

/-- The records of the four runs, joined. -/
def childQueryRecords (reduced : Reduced) :
    Except ScanStoreError (List PageRecord × PageIndexMetadata) :=
  (decodePaths reduced.pathObservations.records).bind fun paths =>
    (decodeIdentities reduced.identityObservations.records).bind fun identities =>
      match materializeChildQueries paths identities
          (reduced.directorySummaries.records.map Prod.snd)
          reduced.allocationContributions.records with
      | .error error => .error (.PageIndex error)
      | .ok result => .ok result

/-- `child_result`: the writer, the page index, the sealed run. -/
def materialize (io : Io) (generation : ScanGeneration) (reduced : Reduced) :
    StagingM (ChildQueryRun × PageIndexMetadata) := do
  let descriptor ← newRunWriter io generation .ChildQuery
  match io.index with
  | some fault => throw (.PageIndexFault fault)
  | none =>
    writeRun io descriptor ((childQueryRecords reduced).bind fun result =>
      (writeRecords PageRecord.key descriptor result.1).map fun run => (run, result.2))

def summaryRoot (io : Io) (run : SummaryRun) : Except ScanStoreError (SummaryMetrics × Coverage) :=
  match io.read .SummaryRoot run.descriptor.slot with
  | some error => .error (.Run error)
  | none =>
    match run.records.reverse.find? fun r => r.2.path.isRoot with
    | none => .error .Recovery
    | some r => .ok (r.2.metrics, r.2.coverage)

/-- The manifest a published generation keeps. -/
def publishedManifest (childQueries catalog identities summaries : RunDescriptor) :
    EStateM ManifestError ScanManifest Unit := do
  ScanManifest.replaceAllRuns childQueries
  ScanManifest.addRun catalog
  ScanManifest.addRun identities
  ScanManifest.addRun summaries
  ScanManifest.transition .Published

/-- The manifest a summary-only generation keeps. -/
def summaryManifest (summaries : RunDescriptor) : EStateM ManifestError ScanManifest Unit := do
  ScanManifest.replaceAllRuns summaries
  ScanManifest.transition .SummaryOnly

namespace ScanStore

def finishIncompleteGeneration (active : ActiveGeneration) (error : ScanStoreError) :
    StoreM ScanGeneration := fun s =>
  .error error { s with active := some active.markIncomplete }

/-- The active generation is only borrowed here, and dropped by the caller: an early return
leaves the store without it. -/
def finishSummaryOnlyGeneration (io : Io) (active : ActiveGeneration) (summaries : SummaryRun) :
    StoreM ScanGeneration := fun s =>
  match summaryRoot io summaries with
  | .error error => .error error s
  | .ok root =>
    match summaryManifest summaries.descriptor active.manifest with
    | .error error _ => .error (.Manifest error) s
    | .ok () manifest =>
      .ok active.generation
        { s with
          summaryOnly := some
            { manifest := manifest
              directorySummaries := summaries
              rootMetrics := root.1
              rootCoverage := root.2
              unrecordedPathCount := active.unrecordedPathCount } }

def installPublication (active : ActiveGeneration) (reduced : Reduced) (childQueries : ChildQueryRun)
    (metadata : PageIndexMetadata) : StoreM ScanGeneration := fun s =>
  match publishedManifest childQueries.descriptor reduced.pathCatalog.descriptor
      reduced.identityObservations.descriptor reduced.directorySummaries.descriptor
      active.manifest with
  | .error error _ => .error (.Manifest error) s
  | .ok () manifest =>
    .ok active.generation
      { s with
        summaryOnly := none
        published := some
          { manifest := manifest
            childQueries := childQueries
            pathCatalog := reduced.pathCatalog
            identityIndex := reduced.identityObservations
            directorySummaryIndex := reduced.directorySummaries
            rootPageMetrics := metadata.rootMetrics
            rootPageCoverage := metadata.rootCoverage
            unrecordedPathCount := active.unrecordedPathCount
            unreadableDirectories := active.unreadableDirectories
            unreadableDirectoriesOverflowed := active.unreadableDirectoriesOverflowed } }

/-- Everything after the reduction. -/
def publishReduced (io : Io) (active : ActiveGeneration) (reduced : Reduced) :
    StoreM ScanGeneration := fun s =>
  match materialize io active.generation reduced ⟨s.nextRunId, active.manifest⟩ with
  | .error error staging =>
    let s := { s with nextRunId := staging.nextRunId }
    if isScanStoreCapacityError error then
      finishSummaryOnlyGeneration io active reduced.directorySummaries s
    else finishIncompleteGeneration active error s
  | .ok result staging =>
    installPublication active reduced result.1 result.2 { s with nextRunId := staging.nextRunId }

def publish (io : Io) : StoreM ScanGeneration := fun s =>
  match s.active with
  | none => .error .NoActiveGeneration s
  | some active =>
    if active.manifest.state ≠ .Scanning then .error .ClosedGeneration s
    else
      let s := { s with active := none }
      match ScanManifest.transition .Reducing active.manifest with
      | .error error _ => .error (.Manifest error) s
      | .ok () manifest =>
        let active := { active with manifest := manifest }
        match reduceActiveGeneration io active.generation active.unreadable ⟨s.nextRunId, active⟩ with
        | .error error w =>
          finishIncompleteGeneration w.active error { s with nextRunId := w.nextRunId }
        | .ok reduced w => publishReduced io w.active reduced { s with nextRunId := w.nextRunId }

end ScanStore

/-! ## Overlays -/

/-- An entry of a folder as its digest sees it. -/
structure FolderEntry where
  name : Component
  kind : PathEntryKind
  identity : Option FileId
  deriving DecidableEq

/-- A count and the lane-wise sum of the SHA-256 terms of the entries. -/
structure FolderDigest where
  entries : Nat
  sum : Fin 4 → UInt64
  deriving DecidableEq

/-- SHA-256 of one entry, in four lanes. -/
abbrev EntryHash := FolderEntry → Fin 4 → UInt64

def FolderDigest.empty : FolderDigest := ⟨0, fun _ => 0⟩

def FolderDigest.add (hash : EntryHash) (d : FolderDigest) (e : FolderEntry) : FolderDigest :=
  ⟨satAdd 64 d.entries 1, fun lane => d.sum lane + hash e lane⟩

structure RefreshedFolder where
  path : RelativePath
  snapshot : EntrySnapshot
  entries : FolderDigest
  removedLater : List RelativePath

/-- A published generation as its successor reads it. -/
structure OverlayBase where
  childQueries : ChildQueryRun
  unrecordedPathCount : Nat
  unreadableDirectories : Finset RelativePath
  unreadableDirectoriesOverflowed : Bool

def PublishedGeneration.overlayBase (g : PublishedGeneration) : OverlayBase :=
  ⟨g.childQueries, g.unrecordedPathCount, g.unreadableDirectories, g.unreadableDirectoriesOverflowed⟩

def PathObservation.identity (o : PathObservation) : Option NativeIdentity :=
  o.snapshot.bind EntrySnapshot.identity

def mayHaveOtherLinks (path : PathObservation) (identity : Option IdentityObservation) : Bool :=
  decide (path.kind ≠ .Directory) &&
    ((identity.any fun identity => decide (identity.declaredLinks ≠ some 1)) ||
      ((path.identity.bind NativeIdentity.linkCount).any fun links => decide (1 < links)))

def identityRequiresReduction (path : PathObservation) (identity : IdentityObservation) : Bool :=
  decide (identity.declaredLinks ≠ some 1) ||
    decide (path.metrics.allocatedBytes ≠ identity.allocatedBytes) ||
    decide (path.metrics.reclaimableBytes ≠ identity.allocatedBytes)

def folderReplaced : String := "the folder that held the removed entry was replaced"

def hardLinkRemoved : String :=
  "the removed entries include a hard link, and the map does not say where the others are"

def folderMissing : String := "the folder that held the removed entry is not in the map"

def folderDiffers : String :=
  "the folder that held the removed entry holds entries the map does not list, or lacks ones it lists"

namespace RefreshedFolder

/-- The snapshot takes the recorded one's place, unless it is another folder's. -/
def refresh (folder : RefreshedFolder) (o : PathObservation) :
    Except ScanStoreError PathObservation :=
  match o.identity with
  | none => .ok o
  | some recorded =>
    if folder.snapshot.identity.any fun current => decide (current.fileId = recorded.fileId) then
      .ok { o with snapshot := some folder.snapshot }
    else .error (.OverlayNeedsRescan folderReplaced)

/-- An entry the digest of the folder counts: a direct child not removed later. -/
def counts (folder : RefreshedFolder) (p : RelativePath) : Bool :=
  p.isDirectChildOf folder.path && !folder.removedLater.any fun later => p.startsWith later

end RefreshedFolder

def PathObservation.folderEntry? (o : PathObservation) : Option FolderEntry :=
  o.path.components.getLast?.map fun name => ⟨name, o.kind, o.identity.map NativeIdentity.fileId⟩

/-- The state of `copy_overlay_facts` between two records of the base. -/
structure OverlayCopy where
  store : ScanStore
  paths : List PathObservation
  identities : List IdentityObservation
  folderCopied : Bool
  folderEntries : FolderDigest

abbrev CopyM := EStateM ScanStoreError OverlayCopy

/-- `append_overlay_batch`: the batch is handed over whole, and taken out of the copy first. -/
def appendOverlayBatch (io : Io) : CopyM Unit := fun c =>
  if c.paths.isEmpty then .ok () c
  else
    let taken := { c with paths := [], identities := [] }
    match ScanStore.appendObservationBatch io c.paths c.identities c.store with
    | .ok () store => .ok () { taken with store := store }
    | .error error store => .error error { taken with store := store }

/-- The folder's own record is refreshed; its other direct children enter the digest. -/
def noteFolder (hash : EntryHash) (folder : Option RefreshedFolder) (o : PathObservation)
    (c : OverlayCopy) : Except ScanStoreError (PathObservation × OverlayCopy) :=
  match folder with
  | none => .ok (o, c)
  | some folder =>
    if folder.path = o.path then
      match folder.refresh o with
      | .error error => .error error
      | .ok o => .ok (o, { c with folderCopied := true })
    else if folder.counts o.path then
      match o.folderEntry? with
      | none => .ok (o, c)
      | some e => .ok (o, { c with folderEntries := c.folderEntries.add hash e })
    else .ok (o, c)

/-- A folder's recorded identity is not an identity fact. -/
def keptIdentity (o : PathObservation) (identity : Option IdentityObservation) :
    Option IdentityObservation :=
  identity.filter fun identity =>
    decide (o.kind ≠ .Directory) && identityRequiresReduction o identity

def copyEntry (io : Io) (hash : EntryHash) (removed : RelativePath)
    (folder : Option RefreshedFolder) (entry : PathObservation × Option IdentityObservation) :
    CopyM Unit := fun c =>
  if entry.1.path.startsWith removed then
    if mayHaveOtherLinks entry.1 entry.2 then .error (.OverlayNeedsRescan hardLinkRemoved) c
    else .ok () c
  else
    match noteFolder hash folder entry.1 c with
    | .error error => .error error c
    | .ok (o, c) =>
      let c :=
        { c with
          identities := c.identities ++ (keptIdentity o entry.2).toList
          paths := c.paths ++ [o] }
      if c.paths.length = maxObservationsPerBatch then appendOverlayBatch io c else .ok () c

def copyEntries (io : Io) (hash : EntryHash) (removed : RelativePath)
    (folder : Option RefreshedFolder) :
    List (PathObservation × Option IdentityObservation) → CopyM Unit
  | [] => pure ()
  | entry :: rest => do
    copyEntry io hash removed folder entry
    copyEntries io hash removed folder rest

/-- The base's records, up to the one the environment cannot read. -/
def readBase (io : Io) (hash : EntryHash) (removed : RelativePath)
    (folder : Option RefreshedFolder)
    (entries : List (PathObservation × Option IdentityObservation)) : CopyM Unit :=
  match io.baseRead with
  | none => copyEntries io hash removed folder entries
  | some (n, error) => do
    copyEntries io hash removed folder (entries.take n)
    throw (.Run error)

/-- The checks after the last record. -/
def folderCheck (folder : Option RefreshedFolder) (c : OverlayCopy) : Except ScanStoreError Unit :=
  match folder with
  | none => .ok ()
  | some folder =>
    if !c.folderCopied then .error (.OverlayNeedsRescan folderMissing)
    else if folder.entries ≠ c.folderEntries then .error (.OverlayNeedsRescan folderDiffers)
    else .ok ()

def copyOverlayFacts (io : Io) (hash : EntryHash) (base : OverlayBase) (removed : RelativePath)
    (folder : Option RefreshedFolder) : CopyM Unit := do
  readBase io hash removed folder (visitChildQueryEntries base.childQueries.records)
  fun c =>
    match folderCheck folder c with
    | .error error => .error error c
    | .ok () => appendOverlayBatch io c

namespace ScanStore

def startOverlayGeneration (base : OverlayBase) (generation : ScanGeneration) : StoreM Unit :=
  fun s =>
    match beginGeneration generation s with
    | .error error s => .error error s
    | .ok () s =>
      .ok ()
        { s with
          active := s.active.map fun active =>
            { active with
              unrecordedPathCount := base.unrecordedPathCount
              unreadableDirectories := base.unreadableDirectories
              unreadableDirectoriesOverflowed := base.unreadableDirectoriesOverflowed } }

def beginOverlayGeneration (io : Io) (hash : EntryHash) (base : OverlayBase)
    (generation : ScanGeneration) (removed : RelativePath) (folder : Option RefreshedFolder) :
    StoreM Unit := fun s =>
  match startOverlayGeneration base generation s with
  | .error error s => .error error s
  | .ok () s =>
    if removed.isRoot then .ok () s
    else
      -- the scan root has no record of its own to refresh
      let copied := folder.all fun folder => folder.path.isRoot
      match copyOverlayFacts io hash base removed folder ⟨s, [], [], copied, .empty⟩ with
      | .error error c => .error error c.store.markActiveIncomplete
      | .ok () c => .ok () c.store

end ScanStore

end Excise
