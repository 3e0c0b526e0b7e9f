/-
# The clipboard bridge

`ClipboardBridge` of `server/clipboard_bridge.cpp`: the client's clipboard (the
cliprdr channel) and the desktop's, each pasted on the other side. What the
client copied is asked for when the desktop pastes it; files come one range at
a time into a staging directory, and whoever pasted them meanwhile waits.

What is outside is in a `World`, another one for each call: the clock, the
disk, the desktop and the conversions between formats. A Format Data Response
carries no id, and the server takes it for the one request that is outstanding;
which request it does answer is the client's to know (`World.answers`).

`log` and `dataRequests` are history variables that the code does not read, and
so are `Transfer.epoch`, the `asked` of downloads and staged files,
`ActiveTransfer.asked`, `ActiveTransfer.answered` and `Download.sizes`.
-/
import Farland.Channels.Cliprdr.Server

namespace Farland
namespace Clipboard

open Channels.Cliprdr ClipboardServer

/-! ### Formats -/

/-- Ids of the named formats farland announces. -/
def htmlId : ℕ := 0xD010
def pngId : ℕ := 0xD011
def filesId : ℕ := 0xD012

/-- Desktop text types, the preferred first. -/
def textMimes : List Text :=
  [text "text/plain;charset=utf-8", text "UTF8_STRING", text "text/plain", text "text/plain;charset=UTF-8",
    text "STRING", text "TEXT"]
def bmpMimes : List Text := [text "image/bmp", text "image/x-bmp", text "image/x-MS-bmp"]
def pngMime : Text := text "image/png"
def htmlMime : Text := text "text/html"
def uriListMime : Text := text "text/uri-list"
def gnomeFilesMime : Text := text "x-special/gnome-copied-files"

/-- What the desktop gets offered for each kind of client data. -/
def offeredText : List Text := [text "text/plain;charset=utf-8", text "text/plain"]
def offeredFiles : List Text := [uriListMime, gnomeFilesMime]

inductive Kind where
  | text | html | png | bmp | files
  deriving DecidableEq

def kindOf (mime : Text) : Option Kind :=
  if mime ∈ textMimes then some .text
  else if mime = htmlMime then some .html
  else if mime = pngMime then some .png
  else if mime ∈ bmpMimes then some .bmp
  else if mime = uriListMime ∨ mime = gnomeFilesMime then some .files
  else none

def firstOf (mimes wanted : List Text) : Option Text := wanted.find? (· ∈ mimes)

def isPng (data : Bytes) : Bool := [0x89, 0x50, 0x4E, 0x47, 0x0D, 0x0A, 0x1A, 0x0A].isPrefixOf data

/-! ### Names of staged files -/

def maxComponentBytes : ℕ := 255
def maxLevels : ℕ := 32

/-- No portable name: empty, a step up, too long, or with a control
character, a slash or a colon. -/
def badComponent (c : Text) : Bool :=
  c == [] || c == text "." || c == text ".." || maxComponentBytes < c.length ||
    c.any fun b => b < 0x20 || b == 0x7F || b == 0x2F || b == 0x3A

/-- `split_client_name`: the components between backslashes. -/
def splitClientName (name : Text) : Option (List Text) :=
  let components := name.splitOn 0x5C
  if components.any badComponent ∨ maxLevels < components.length then none else some components

/-! ### Records -/

structure ClipboardOptions where
  maxDataSize : ℕ := 64 * 1024 * 1024
  files : Bool := true
  /-- What one paste of the client's files may stage. -/
  maxStagedBytes : ℕ := 2 ^ 30
  maxStagedFiles : ℕ := 4096
  stagingRoot : Text := []
  /-- FILECONTENTS_RANGE size for the client's files. -/
  rangeSize : ℕ := 2 ^ 20
  maxReadSize : ℕ := 4 * 1024 * 1024
  protocol : ServerConfig := {}

/-- The desktop pastes; `epoch` is `remote_epoch_` when it did. -/
structure Transfer where
  serial : ℕ
  mimeType : Text
  epoch : ℕ
  deriving DecidableEq

/-- The client was asked for its data when `remote_epoch_` was `asked`; the
data that came answers a request of when it was `answered`. -/
structure ActiveTransfer where
  transfer : Transfer
  formatId : ℕ
  asked : ℕ
  answered : Option ℕ := none
  deriving DecidableEq

structure PendingRead where
  request : ℕ
  formatId : ℕ
  mimeType : Text
  deriving DecidableEq

/-- The files of the last paste; their list answers a request of when
`remote_epoch_` was `asked`. -/
structure Staged where
  epoch : ℕ
  items : List Text
  asked : Option ℕ
  deriving DecidableEq

/-- A private directory for the files of one paste, and how many bytes were
appended to them. -/
structure StagingDirectory where
  path : Text
  written : ℕ := 0
  deriving DecidableEq

/-- Local files the desktop copied. -/
abbrev LocalFileList := List FileDescriptor

/-- Fetching the files of a FileGroupDescriptorW into a staging directory. -/
structure Download where
  epoch : ℕ
  files : List FileDescriptor
  components : List (List Text)
  directory : StagingDirectory
  clipDataId : Option ℕ := none
  index : ℕ := 0
  fileOpen : Bool := false
  size : Option ℕ := none
  offset : ℕ := 0
  total : ℕ := 0
  stream : Option ℕ := none
  sizeRequest : Bool := false
  /-- `remote_epoch_` at the request that the list answers; the files are
  asked for later. -/
  asked : Option ℕ
  /-- The sizes of the files that are through. -/
  sizes : List ℕ := []
  deriving DecidableEq

/-- What is outside, during one call. -/
structure World where
  now : Time := 0
  /-- The Format Data Request that a Format Data Response of this call answers,
  counted from 0. -/
  answers : ℕ := 0
  pngSupported : Bool := true
  /-- Conversions to what the desktop takes. -/
  unicodeTextToUtf8 : Bytes → Text := id
  ansiTextToUtf8 : Bytes → Text := id
  cfHtmlToHtml : Bytes → Option Text := fun _ => none
  dibToPng : Bytes → Option Bytes := fun _ => none
  dibToBmp : Bytes → Option Bytes := fun _ => none
  /-- `for_client`, with the list of the files it names. -/
  forClient : PendingRead → Bytes → Option (Bytes × Option LocalFileList) := fun _ _ => none
  /-- The id of the read started for a request. -/
  read : ℕ → ℕ := id
  fileSize : LocalFileList → ℕ → Option ℕ := fun _ _ => none
  readFile : LocalFileList → ℕ → ℕ → ℕ → Option Bytes := fun _ _ _ _ => none
  fileUri : Text → Text := id
  defaultStagingRoot : Option Text := none
  createDirectory : Text → Option Text := fun _ => none
  /-- Whether the directory or the file at an index of the list can be made. -/
  makeDirectory : ℕ → Bool := fun _ => true
  createFile : ℕ → Bool := fun _ => true
  append : Bool := true

/-! ### History -/

inductive Entry where
  /-- `desktop_.write`; a value with `remote_epoch_` at the request that it
  answers, if that request was sent. -/
  | write (transfer : Transfer) (data : Option (Bytes × Option ℕ))
  | setSelection (mimes : List Text)
  /-- Data is taken for a request of when `remote_epoch_` was `asked`, and
  answers one of when it was `answered`. -/
  | taken (asked : ℕ) (answered : Option ℕ)
  /-- A paste waits for the files of a download already running, of `epoch`. -/
  | joined (transfer : Transfer) (epoch : ℕ)
  /-- A file list that was asked for when `remote_epoch_` was `asked` is taken
  for that of `epoch`. -/
  | listed (asked epoch : ℕ)
  /-- The size of a file became known, from the list or by asking, behind
  files of the sizes `before`. -/
  | learned (declared : Bool) (before : List ℕ) (size : ℕ)
  /-- Data was appended; how many bytes the download has staged now. -/
  | appended (staged : ℕ)
  deriving DecidableEq

structure ClipboardBridge where
  options : ClipboardOptions := {}
  server : ClipboardServer := {}
  failed : Bool := false
  remoteFormats : List Format := []
  /-- Counts the client's format lists. -/
  remoteEpoch : ℕ := 0
  firstRemoteList : Bool := true
  transfers : List Transfer := []
  active : Option ActiveTransfer := none
  waitingForFiles : List Transfer := []
  download : Option Download := none
  staged : Option Staged := none
  stagingDirs : List StagingDirectory := []
  nextClipDataId : ℕ := 1
  desktopMimes : Option (List Text) := none
  reads : List (ℕ × PendingRead) := []
  files : Option LocalFileList := none
  locked : List (ℕ × LocalFileList) := []
  /-- `remote_epoch_` at each Format Data Request sent. -/
  dataRequests : List ℕ := []
  log : List Entry := []

namespace ClipboardBridge

/-- The constructor. -/
def make (options : ClipboardOptions) : ClipboardBridge :=
  let flags := options.protocol.generalFlags
  let offered := if options.files then flags
    else flags &&& (0xFFFFFFFF - (streamFileclipEnabled ||| canLockClipdata))
  { options := options, server := { config := { options.protocol with generalFlags := offered } } }

variable (b : ClipboardBridge)

def note (e : Entry) : ClipboardBridge := { b with log := b.log ++ [e] }

/-- `desktop_.write`. -/
def write (b : ClipboardBridge) (transfer : Transfer) (data : Option (Bytes × Option ℕ)) : ClipboardBridge :=
  b.note (.write transfer data)

/-- Refuses pastes. -/
def refuseAll (transfers : List Transfer) : ClipboardBridge :=
  { b with log := b.log ++ transfers.map fun t => .write t none }

def failTransfers : ClipboardBridge :=
  { (b.refuseAll ((b.active.map (·.transfer)).toList ++ b.transfers ++ b.waitingForFiles)) with
    active := none, transfers := [], waitingForFiles := [], download := none }

/-! ### The desktop's clipboard, pasted on the client -/

variable (w : World)

/-- What the client is offered. -/
def desktopFormats (mimes : List Text) : List Format :=
  (if (firstOf mimes textMimes).isSome then [⟨cfUnicodeText, []⟩] else []) ++
  (if htmlMime ∈ mimes then [⟨htmlId, htmlFormat⟩] else []) ++
  (if w.pngSupported ∧ pngMime ∈ mimes ∨ (firstOf mimes bmpMimes).isSome then [⟨cfDib, []⟩, ⟨cfDibv5, []⟩] else []) ++
  (if pngMime ∈ mimes then [⟨pngId, pngFormat⟩] else []) ++
  (if b.options.files ∧ b.server.has streamFileclipEnabled ∧ (firstOf mimes offeredFiles).isSome
    then [⟨filesId, fileGroupDescriptorW⟩] else [])

def announceDesktop (mimes : List Text) : ClipboardBridge :=
  { b with files := none, server := b.server.announce (b.desktopFormats w mimes) }

def answer (b : ClipboardBridge) (id : ℕ) (data : Option Bytes) : ClipboardBridge :=
  { b with server := b.server.answer id data }

/-- The desktop type that a format of the client's is made from. -/
def mimeFor (formatId : ℕ) : Option Text :=
  let mimes := b.desktopMimes.getD []
  if formatId = cfUnicodeText then firstOf mimes textMimes
  else if formatId = htmlId ∧ htmlMime ∈ mimes then some htmlMime
  else if formatId = cfDib ∨ formatId = cfDibv5 then
    if w.pngSupported ∧ pngMime ∈ mimes then some pngMime else firstOf mimes bmpMimes
  else if formatId = pngId ∧ pngMime ∈ mimes then some pngMime
  else if formatId = filesId ∧ b.options.files then firstOf mimes offeredFiles
  else none

def onDataRequested (id formatId : ℕ) : ClipboardBridge :=
  match b.mimeFor w formatId with
  | none => b.answer id none
  | some mime => { b with reads := b.reads.filter (·.1 != w.read id) ++ [(w.read id, ⟨id, formatId, mime⟩)] }

def onReadFinished (id : ℕ) (data : Option Bytes) : ClipboardBridge :=
  match b.reads.find? (·.1 == id) with
  | none => b
  | some (_, read) =>
    let b := { b with reads := b.reads.filter (·.1 != id) }
    match data.bind (w.forClient read) with
    | none => b.answer read.request none
    | some (converted, list) =>
      let b := { b with files := list.or b.files }
      b.answer read.request (if b.options.maxDataSize < converted.length then none else some converted)

def onFileContentsRequested (id : ℕ) (request : FileContentsRequest) :
    ClipboardBridge :=
  match (request.clipDataId.bind fun id => List.lookup id b.locked).or b.files with
  | none => b.answer id none
  | some list =>
    if request.flags = fileContentsSize then
      b.answer id ((w.fileSize list request.index).map (LittleEndian.leBytes 8))
    else b.answer id (w.readFile list request.index request.position (min request.requested b.options.maxReadSize))

/-- The client locked the files of now under an id. -/
def onLocked (clipDataId : ℕ) : ClipboardBridge :=
  match b.files with
  | none => b
  | some list => { b with locked := b.locked.filter (·.1 != clipDataId) ++ [(clipDataId, list)] }

/-! ### The client's formats -/

def remoteId (name : Text) : Option ℕ :=
  (b.remoteFormats.find? fun f => f.name == name).map (·.id)

def remoteHas (id : ℕ) : Bool := b.remoteFormats.any fun f => f.id == id && f.name == []

/-- What the desktop is offered. -/
def remoteMimes : List Text :=
  let dib := b.remoteHas cfDib || b.remoteHas cfDibv5
  (if b.remoteHas cfUnicodeText ∨ b.remoteHas cfText ∨ b.remoteHas cfOemText then offeredText else []) ++
  (if (b.remoteId htmlFormat).isSome then [htmlMime] else []) ++
  (if (b.remoteId pngFormat).isSome ∨ (b.remoteId pngMime).isSome ∨ dib ∧ w.pngSupported then [pngMime] else []) ++
  (if dib then [text "image/bmp"] else []) ++
  (if b.options.files ∧ b.server.has streamFileclipEnabled ∧ (b.remoteId fileGroupDescriptorW).isSome
    then offeredFiles else [])

/-- The client copied. -/
def onRemoteFormats (list : List Format) : ClipboardBridge :=
  let first := b.firstRemoteList
  let b := { b with remoteFormats := list, remoteEpoch := b.remoteEpoch + 1, firstRemoteList := false }
  if first ∧ list = [] then
    match b.desktopMimes with
    | none => b
    | some mimes => b.announceDesktop w mimes
  else if b.remoteMimes w = [] then b
  else note { b with files := none, desktopMimes := none } (.setSelection (b.remoteMimes w))

/-- The first of the standard formats that the client has. -/
def standard (ids : List ℕ) : Option ℕ := ids.find? b.remoteHas

/-- The client's format that a desktop type is made from. -/
def sourceFormat (mimeType : Text) : Option ℕ :=
  match kindOf mimeType with
  | none => none
  | some .text => b.standard [cfUnicodeText, cfText, cfOemText]
  | some .html => b.remoteId htmlFormat
  | some .png =>
    ((b.remoteId pngFormat).or (b.remoteId pngMime)).or (if w.pngSupported then b.standard [cfDibv5, cfDib] else none)
  | some .bmp => b.standard [cfDib, cfDibv5]
  | some .files => if b.options.files then b.remoteId fileGroupDescriptorW else none

/-- The client's data as the desktop takes it. -/
def forDesktop (active : ActiveTransfer) (data : Bytes) : Option Bytes :=
  match (kindOf active.transfer.mimeType).getD .text with
  | .text => some (if active.formatId = cfUnicodeText then w.unicodeTextToUtf8 data else w.ansiTextToUtf8 data)
  | .html => w.cfHtmlToHtml data
  | .png =>
    if active.formatId ≠ cfDib ∧ active.formatId ≠ cfDibv5 then if isPng data then some data else none
    else w.dibToPng data
  | .bmp => w.dibToBmp data
  | .files => none

/-! ### Downloads -/

/-- The staged files, as the desktop type names them. -/
def stagedUris (items : List Text) (mimeType : Text) : Bytes :=
  if mimeType = gnomeFilesMime then text "copy" ++ items.flatMap fun item => text "\n" ++ w.fileUri item
  else items.flatMap fun item => w.fileUri item ++ text "\r\n"

/-- The top-level items of a download, each once. -/
def stagedItems (d : Download) : List Text :=
  (d.components.map fun c => d.directory.path ++ text "/" ++ c.headD []).foldl
    (fun items item => if item ∈ items then items else items ++ [item]) []

/-- `finish_download`: whoever waits gets the files, or nothing. -/
def finishDownload (d : Download) (ok : Bool) : ClipboardBridge :=
  let waiting := b.waitingForFiles
  let b :=
    { b with
      download := none, waitingForFiles := []
      server := match d.clipDataId with
        | none => b.server
        | some clipDataId => b.server.unlock clipDataId }
  if ok = false then b.refuseAll waiting
  else
    { b with
      staged := some ⟨d.epoch, stagedItems d, d.asked⟩
      stagingDirs := (b.stagingDirs ++ [d.directory]).drop ((b.stagingDirs.length + 1) - 2)
      log := b.log ++ waiting.map fun t => .write t (some (stagedUris w (stagedItems d) t.mimeType, d.asked)) }

def declaresSize (file : FileDescriptor) : Bool := file.flags &&& fdFileSize != 0

def isDirectory (file : FileDescriptor) : Bool := file.attributes &&& fileAttributeDirectory != 0

/-- The file at hand, open. -/
def openFile (d : Download) (file : FileDescriptor) : Download :=
  { d with fileOpen := true, offset := 0, size := if declaresSize file then some file.size else none }

/-- Asks for the size of the file at hand. -/
def requestSize (d : Download) : ClipboardBridge :=
  let asked := b.server.requestFileContents d.index fileContentsSize 0 0 d.clipDataId w.now
  { b with server := asked.1, download := some { d with stream := asked.2, sizeRequest := true } }

/-- Asks for the next range of the file at hand. -/
def requestRange (d : Download) (size : ℕ) : ClipboardBridge :=
  let length := min b.options.rangeSize (size - d.offset)
  if 0xFFFFFFFF < d.offset + length ∧ b.server.has hugeFileSupportEnabled = false then b.finishDownload w d false
  else
    let asked := b.server.requestFileContents d.index fileContentsRange d.offset length d.clipDataId w.now
    { b with server := asked.1, download := some { d with stream := asked.2, sizeRequest := false } }

/-- The loop of `advance_download` over the files from the one at hand on. -/
def advanceLoop (w : World) : List FileDescriptor → ClipboardBridge → Download → ClipboardBridge
  | [], b, d => b.finishDownload w d true
  | file :: rest, b, d =>
    if isDirectory file then
      if w.makeDirectory d.index then advanceLoop w rest b { d with index := d.index + 1 }
      else b.finishDownload w d false
    else if d.fileOpen = false ∧ w.createFile d.index = false then b.finishDownload w d false
    else
      let b := if d.fileOpen = false ∧ declaresSize file then b.note (.learned true d.sizes file.size) else b
      let d := if d.fileOpen then d else openFile d file
      match d.size with
      | none => b.requestSize w d
      | some size =>
        if size ≤ d.offset then
          advanceLoop w rest b { d with fileOpen := false, index := d.index + 1, sizes := d.sizes ++ [size] }
        else b.requestRange w d size

def advanceDownload : ClipboardBridge :=
  match b.download with
  | none => b
  | some d => if d.stream.isSome then b else advanceLoop w (d.files.drop d.index) b d

/-- The sum of the declared sizes, in 64 bits. -/
def declared (files : List FileDescriptor) : ℕ :=
  files.foldl (fun sum file => if declaresSize file then (sum + file.size) % 2 ^ 64 else sum) 0

/-- The names of all files, split. -/
def componentsOf (files : List FileDescriptor) : Option (List (List Text)) :=
  files.mapM fun file => splitClientName file.name

/-- The download of a file list into a new directory; the paste waits for it. -/
def beginDownload (active : ActiveTransfer) (files : List FileDescriptor)
    (components : List (List Text)) (path : Text) : ClipboardBridge :=
  let lock := b.server.has canLockClipdata
  let d : Download :=
    { epoch := b.remoteEpoch, files := files, components := components, directory := { path := path }
      clipDataId := if lock then some b.nextClipDataId else none, asked := active.answered }
  advanceDownload
    { b.note (.listed active.asked b.remoteEpoch) with
      server := if lock then b.server.lock b.nextClipDataId else b.server
      nextClipDataId := if lock then (b.nextClipDataId + 1) % 2 ^ 32 else b.nextClipDataId
      download := some d
      waitingForFiles := b.waitingForFiles ++ [active.transfer] } w

def startDownload (active : ActiveTransfer) (fileList : Bytes) : ClipboardBridge :=
  let root := if b.options.stagingRoot = [] then w.defaultStagingRoot else some b.options.stagingRoot
  match decodeFileList fileList with
  | .error _ => b.write active.transfer none
  | .ok files =>
    if files = [] ∨ b.options.maxStagedFiles < files.length then b.write active.transfer none
    else
      match root, componentsOf files with
      | some root, some components =>
        if b.options.maxStagedBytes < declared files then b.write active.transfer none
        else
          match w.createDirectory root with
          | none => b.write active.transfer none
          | some path => b.beginDownload w active files components path
      | _, _ => b.write active.transfer none

variable (b : ClipboardBridge) (w : World)

/-- A file list starts a download, or the paste is refused. -/
theorem startDownload_cases (active : ActiveTransfer) (fileList : Bytes) :
    b.startDownload w active fileList = b.write active.transfer none ∨
      ∃ files components path, decodeFileList fileList = .ok files ∧
        b.startDownload w active fileList = b.beginDownload w active files components path := by
  unfold startDownload
  rcases decodeFileList fileList with e | files
  · exact .inl rfl
  · by_cases hfiles : files = [] ∨ b.options.maxStagedFiles < files.length
    · exact .inl (if_pos hfiles)
    · simp only [if_neg hfiles]
      generalize (if b.options.stagingRoot = [] then w.defaultStagingRoot else some b.options.stagingRoot) = root
      rcases root with _ | root
      · exact .inl rfl
      · rcases componentsOf files with _ | components
        · exact .inl rfl
        · by_cases hlimit : b.options.maxStagedBytes < declared files
          · exact .inl (if_pos hlimit)
          · simp only [if_neg hlimit]
            rcases w.createDirectory root with _ | path
            · exact .inl rfl
            · exact .inr ⟨files, components, path, rfl, rfl⟩

/-- What is staged and still to come of the file at hand is held against the
limit. -/
def checkLimit (b : ClipboardBridge) (w : World) (d : Download) (size : ℕ) : ClipboardBridge :=
  if b.options.maxStagedBytes < (d.total + (size - min size d.offset)) % 2 ^ 64 then b.finishDownload w d false
  else advanceDownload { b with download := some d } w

/-- `r.u64le().value_or(0)`. -/
def sizeOf (data : Bytes) : ℕ := if data.length < 8 then 0 else LittleEndian.leValue (data.take 8)

def takeSize (b : ClipboardBridge) (w : World) (d : Download) (data : Bytes) : ClipboardBridge :=
  checkLimit (b.note (.learned false d.sizes (sizeOf data))) w { d with size := some (sizeOf data) } (sizeOf data)

def takeRange (b : ClipboardBridge) (w : World) (d : Download) (data : Bytes) : ClipboardBridge :=
  match d.size with
  | none => b.finishDownload w d false
  | some size =>
    if data = [] ∨ size < (d.offset + data.length) % 2 ^ 64 ∨ w.append = false then b.finishDownload w d false
    else
      let written := d.directory.written + data.length
      checkLimit (b.note (.appended written)) w
        { d with
          directory := { d.directory with written := written }
          offset := (d.offset + data.length) % 2 ^ 64, total := (d.total + data.length) % 2 ^ 64 } size

def onFileContentsReceived (b : ClipboardBridge) (w : World) (streamId : ℕ) (data : Option Bytes) : ClipboardBridge :=
  match b.download with
  | none => b
  | some d =>
    if d.stream ≠ some streamId then b
    else
      let d := { d with stream := none }
      match data with
      | none => b.finishDownload w d false
      | some data => if d.sizeRequest then b.takeSize w d data else b.takeRange w d data

/-! ### Pastes on the desktop -/

/-- The loop of `pump_transfers` over the pastes in the queue. -/
def pumpLoop (w : World) : List Transfer → ClipboardBridge → ClipboardBridge
  | [], b => { b with transfers := [] }
  | t :: rest, b =>
    if b.active.isSome then { b with transfers := t :: rest }
    else if b.server.ready = false then pumpLoop w rest (b.write t none)
    else
      match b.sourceFormat w t.mimeType with
      | none => pumpLoop w rest (b.write t none)
      | some format =>
        match (if kindOf t.mimeType = some .files then b.staged.filter (·.epoch == b.remoteEpoch) else none) with
        | some staged => pumpLoop w rest (b.write t (some (stagedUris w staged.items t.mimeType, staged.asked)))
        | none =>
          match (if kindOf t.mimeType = some .files then b.download else none) with
          | some d =>
            pumpLoop w rest { b.note (.joined t d.epoch) with waitingForFiles := b.waitingForFiles ++ [t] }
          | none =>
            let asked := b.server.requestData format w.now
            -- Otherwise a request is outstanding; the next call tries again.
            if asked.2 then
              { b with
                server := asked.1, active := some { transfer := t, formatId := format, asked := b.remoteEpoch }
                transfers := rest, dataRequests := b.dataRequests ++ [b.remoteEpoch] }
            else { b with transfers := t :: rest }

def pumpTransfers (b : ClipboardBridge) (w : World) : ClipboardBridge := pumpLoop w b.transfers b

def onDataReceived (b : ClipboardBridge) (w : World) (data : Option Bytes) : ClipboardBridge :=
  match b.active with
  | none => b
  | some active =>
    let b := { b with active := none }
    match data with
    | none => b.write active.transfer none
    | some data =>
      let answered := b.dataRequests[w.answers]?
      let b := b.note (.taken active.asked answered)
      if kindOf active.transfer.mimeType = some .files then b.startDownload w { active with answered } data
      else b.write active.transfer ((forDesktop w active data).map fun converted => (converted, answered))

/-! ### Events -/

def handleEvent (b : ClipboardBridge) (w : World) : ServerEvent → ClipboardBridge
  | .ready _ | .formatListAnswered _ => b
  | .remoteFormatList formats => b.onRemoteFormats w formats
  | .dataRequested id formatId => b.onDataRequested w id formatId
  | .fileContentsRequested id request => b.onFileContentsRequested w id request
  | .dataReceived data => b.onDataReceived w data
  | .fileContentsReceived streamId data => b.onFileContentsReceived w streamId data
  | .locked clipDataId => b.onLocked clipDataId
  | .unlocked clipDataId => { b with locked := b.locked.filter (·.1 != clipDataId) }

/-- Polls at most `n` events of the channel. -/
def drain (w : World) : ℕ → ClipboardBridge → ClipboardBridge
  | 0, b => b
  | n + 1, b => match b.server.events with
    | [] => b
    | event :: rest => drain w n (handleEvent { b with server := { b.server with events := rest } } w event)

/-- Each event handled is one fewer, or one request of the client's fewer. -/
def drainAll (b : ClipboardBridge) (w : World) : ClipboardBridge :=
  drain w (b.server.events.length + b.server.incoming.length) b

/-- `flush` takes the output. -/
def process (b : ClipboardBridge) (w : World) : ClipboardBridge :=
  let b := ((b.drainAll w).pumpTransfers w).advanceDownload w
  { b with server := { b.server with output := [] } }

inductive DesktopEvent where
  | ownerChanged (mimes : List Text)
  | transferRequested (serial : ℕ) (mimeType : Text)
  | readFinished (id : ℕ) (data : Option Bytes)
  deriving DecidableEq

def handleDesktop (w : World) (b : ClipboardBridge) : DesktopEvent → ClipboardBridge
  | .ownerChanged mimes =>
    let b := { b with desktopMimes := some mimes }
    if b.failed = false ∧ b.server.ready ∧ b.firstRemoteList = false then b.announceDesktop w mimes else b
  | .transferRequested serial mimeType => { b with transfers := b.transfers ++ [⟨serial, mimeType, b.remoteEpoch⟩] }
  | .readFinished id data => b.onReadFinished w id data

/-- What the reassembler makes of a chunk. -/
inductive Chunk where
  | broken (e : Error)
  | incomplete
  | message (pdu : Result Pdu)

def receive (b : ClipboardBridge) (w : World) (chunk : Chunk) : ClipboardBridge :=
  if b.failed then b
  else
    let received := match chunk with
      | .broken e => (b.server, some e)
      | .incomplete => (b.server, none)
      | .message pdu => b.server.receive pdu w.now
    let b := { b with server := received.1 }
    if received.2.isSome then failTransfers { b with failed := true } else b.process w

def service (b : ClipboardBridge) (w : World) (events : List DesktopEvent) : ClipboardBridge :=
  let b := events.foldl (handleDesktop w) b
  if b.failed then b.failTransfers else process { b with server := b.server.tick w.now } w

/-! ### Runs -/

inductive Call where
  | start (mimes : Option (List Text))
  | receive (chunk : Chunk)
  | service (events : List DesktopEvent)

def step (b : ClipboardBridge) (w : World) : Call → ClipboardBridge
  | .start mimes => { b with desktopMimes := mimes, server := { b.server.start with output := [] } }
  | .receive chunk => b.receive w chunk
  | .service events => b.service w events

def run (b : ClipboardBridge) (calls : List (World × Call)) : ClipboardBridge :=
  calls.foldl (fun b c => b.step c.1 c.2) b

/-! ### What the client's requests leave alone -/

/-- What a handler of the client's requests leaves alone. -/
structure Aside (b b' : ClipboardBridge) : Prop where
  options : b'.options = b.options
  failed : b'.failed = b.failed
  remoteEpoch : b'.remoteEpoch = b.remoteEpoch
  transfers : b'.transfers = b.transfers
  active : b'.active = b.active
  waitingForFiles : b'.waitingForFiles = b.waitingForFiles
  download : b'.download = b.download
  staged : b'.staged = b.staged
  log : b'.log = b.log
  quiet : Quiet b.server b'.server
  waiting : b'.server.waiting ≤ b.server.waiting

theorem Aside.refl : Aside b b := ⟨rfl, rfl, rfl, rfl, rfl, rfl, rfl, rfl, rfl, .refl _, le_rfl⟩

theorem answer_aside (id : ℕ) (data : Option Bytes) : Aside b (b.answer id data) :=
  ⟨rfl, rfl, rfl, rfl, rfl, rfl, rfl, rfl, rfl, answer_quiet _ _ _, answer_waiting _ _ _⟩

theorem onDataRequested_aside (id formatId : ℕ) : Aside b (b.onDataRequested w id formatId) := by
  unfold onDataRequested
  split
  · exact answer_aside b id none
  · exact ⟨rfl, rfl, rfl, rfl, rfl, rfl, rfl, rfl, rfl, .refl _, le_rfl⟩

theorem onFileContentsRequested_aside (id : ℕ) (request : FileContentsRequest) :
    Aside b (b.onFileContentsRequested w id request) := by
  unfold onFileContentsRequested
  split
  · exact answer_aside b id none
  · split_ifs
    · exact answer_aside b id _
    · exact answer_aside b id _

theorem onLocked_aside (clipDataId : ℕ) : Aside b (b.onLocked clipDataId) := by
  unfold onLocked
  split
  · exact .refl b
  · exact ⟨rfl, rfl, rfl, rfl, rfl, rfl, rfl, rfl, rfl, .refl _, le_rfl⟩

theorem onReadFinished_aside (id : ℕ) (data : Option Bytes) : Aside b (b.onReadFinished w id data) := by
  unfold onReadFinished
  split
  · exact .refl b
  · split
    · exact ⟨rfl, rfl, rfl, rfl, rfl, rfl, rfl, rfl, rfl, answer_quiet _ _ _, answer_waiting _ _ _⟩
    · exact ⟨rfl, rfl, rfl, rfl, rfl, rfl, rfl, rfl, rfl, answer_quiet _ _ _, answer_waiting _ _ _⟩

theorem announceDesktop_aside (mimes : List Text) : Aside b (b.announceDesktop w mimes) :=
  ⟨rfl, rfl, rfl, rfl, rfl, rfl, rfl, rfl, rfl, announce_quiet _ _, (announce_calm _ _).waiting.le⟩

end ClipboardBridge
end Clipboard
end Farland
