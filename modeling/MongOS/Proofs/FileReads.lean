import MongOS.Verified.Run
import MongOS.Proofs.DescriptorTable
import MongOS.Proofs.ReadData

/-!
# Reading files through descriptors

A session is a kernel together with a record of what the running process got:
for each descriptor it opened on a regular file, the inode and the bytes that
`read` returned for it since then.  `Tracked` relates a session to the
descriptor table, `callStep_tracked` keeps the relation, and `files_delivered`
concludes that the bytes are a beginning of the file, that each further read
returns what is asked for or what is left, and that it moves no other
descriptor.
-/

namespace MongOS.Proofs.FileReads

open MongOS.Model
open MongOS.Verified
open MongOS.Proofs.ReadData
open MongOS.Proofs.DescriptorCalls
open MongOS.Proofs.DescriptorTable

variable {σ : Type}

/-- The contents of a file. -/
def fileBytes (fs : FileSys) (inode : Inode) : List Byte :=
  (List.range inode.size).map (fileByte fs inode)

/-- The largest size of a file: 1023 data blocks. -/
def MAX_FILE_SIZE : Nat := 1023 * BLOCK_SIZE

/-- A mounted image whose regular files are not too large. -/
structure WellFormed (fs : FileSys) : Prop where
  mounted : fs.bootB ≠ none
  sizes : ∀ boot, fs.bootB = some boot → ∀ i < boot.numDirEntries,
    (boot.dirEntries i).type = 2 →
    (fs.inodeSt (boot.dirEntries i).indexNode).size ≤ MAX_FILE_SIZE

theorem WellFormed.size_le {fs : FileSys} (hfs : WellFormed fs) {name : CStr}
    {d : Dentry} (hfound : readDentryByName fs name = some d)
    (htype : d.type = 2) : (fs.inodeSt d.indexNode).size ≤ MAX_FILE_SIZE := by
  obtain ⟨boot, i, hboot, hi, rfl⟩ := entry_of_found hfound
  exact hfs.sizes boot hboot i hi htype

/-! ## `read_f` at a position -/

/-- How many bytes a read of `nbytes` bytes delivers from position `pos`. -/
def delivered (inode : Inode) (pos : Nat) (nbytes : Int) : Nat :=
  min nbytes.toNat (inode.size - pos)

/-- The buffer after such a read. -/
def fillBuffer (fs : FileSys) (inode : Inode) (pos : Nat) (nbytes : Int)
    (buf : Nat → Byte) : Nat → Byte :=
  fun j => if j < delivered inode pos nbytes then fileByte fs inode (pos + j)
    else buf j

theorem readF_spec {fs : FileSys} (hfs : WellFormed fs) {inode : Inode}
    {pos : Nat} {nbytes : Int} (buf : Nat → Byte)
    (hsize : inode.size ≤ MAX_FILE_SIZE) (hpos : pos ≤ inode.size)
    (hlo : 0 ≤ nbytes) (hhi : nbytes < 2 ^ 31) :
    readF fs inode pos buf nbytes =
      ((delivered inode pos nbytes : Int), pos + delivered inode pos nbytes,
        fillBuffer fs inode pos nbytes buf) := by
  have hmax : MAX_FILE_SIZE = 4190208 := rfl
  have hlen : (nbytes % 2 ^ 32).toNat = nbytes.toNat := by
    rw [Int.emod_eq_of_lt hlo (by omega)]
  obtain ⟨boot, hboot⟩ := Option.ne_none_iff_exists'.1 hfs.mounted
  have hdata : readData fs inode pos buf nbytes.toNat =
      ((delivered inode pos nbytes : Int),
        fillBuffer fs inode pos nbytes buf) := by
    rcases Nat.lt_or_ge pos inode.size with hlt | hge
    · rw [readData_spec fs inode pos _ buf hfs.mounted hlt (by omega),
        toInt32_of_lt (by omega)]
      rfl
    · have hzero : delivered inode pos nbytes = 0 := by
        unfold delivered
        omega
      rw [readData_eof fs inode pos _ buf hfs.mounted hge, hzero]
      refine Prod.ext rfl (funext fun j => ?_)
      simp [fillBuffer, hzero]
  have hdone : delivered inode pos nbytes ≤ inode.size - pos := Nat.min_le_right _ _
  simp only [readF, hboot, hlen, hdata]
  rw [if_pos (Int.natCast_nonneg _)]
  refine Prod.ext rfl (Prod.ext ?_ rfl)
  dsimp only
  omega

/-! ## Sessions -/

/-- A kernel, and for the descriptors that the running process opened on
regular files the inode and the bytes read so far. -/
structure Session (σ : Type) where
  kernel : Kernel σ
  opened : Int → Option (Nat × List Byte)

/-- A descriptor call of the process. -/
inductive FdCall where
  | «open» (name : CStr)
  | read (fd : Int) (buf : Nat → Byte) (nbytes : Int)
  | close (fd : Int)

/-- The sizes of reads are `int32_t` values that are not negative. -/
def FdCall.Valid : FdCall → Prop
  | .read _ _ nbytes => 0 ≤ nbytes ∧ nbytes < 2 ^ 31
  | _ => True

/-- What `open` adds to the record. -/
def openedFile (fs : FileSys) (name : CStr) : Option (Nat × List Byte) :=
  (readDentryByName fs name).bind fun d =>
    if d.type = 2 then some (d.indexNode, []) else none

/-- One call, with the record of what it returned. -/
def callStep (fs : FileSys) (s : Session σ) : FdCall → Session σ
  | .open name =>
      let r := Model.open fs s.kernel name
      { kernel := r.1
        opened := if r.2 = -1 then s.opened
          else Function.update s.opened r.2 (openedFile fs name) }
  | .read fd buf nbytes =>
      let r := Model.read fs s.kernel fd (some buf) nbytes
      { kernel := r.1
        opened := match r.2 with
          | .ret value buf' => Function.update s.opened fd
              ((s.opened fd).map fun f =>
                (f.1, f.2 ++ (List.range value.toNat).map buf'))
          | _ => s.opened }
  | .close fd =>
      let r := Model.close fs s.kernel fd
      { kernel := r.1
        opened := if r.2 = 0 then Function.update s.opened fd none
          else s.opened }

/-- The step relation of sessions. -/
def CallStep (fs : FileSys) (s : Session σ) (e : FdCall) (s' : Session σ) :
    Prop := e.Valid ∧ callStep fs s e = s'

/-- A slot is open on a regular file at the position behind `bytes`, which are
the first bytes of the file. -/
structure FileSlot (fs : FileSys) (slot : FArray) (i : Nat)
    (bytes : List Byte) : Prop where
  flags : slot.flags ≠ FREE
  fotp : slot.fotp = some .file
  inode : slot.inode = i
  filePos : slot.filePos = bytes.length
  size_le : (fs.inodeSt i).size ≤ MAX_FILE_SIZE
  pos_le : bytes.length ≤ (fs.inodeSt i).size
  first : bytes = (List.range bytes.length).map (fileByte fs (fs.inodeSt i))

/-- The record of a session is what the descriptor table says. -/
structure Tracked (fs : FileSys) (s : Session σ) : Prop where
  name : ¬ NamedGr s.kernel
  range : ∀ fd f, s.opened fd = some f → 2 ≤ fd ∧ fd < 8
  slot : ∀ fd i bytes, s.opened fd = some (i, bytes) →
    FileSlot fs (slotOf s.kernel fd) i bytes

theorem namedGr_congr {k k' : Kernel σ} (h : k'.curPcb.name = k.curPcb.name)
    (hk : ¬ NamedGr k) : ¬ NamedGr k' := by
  unfold NamedGr at *
  rw [h]
  exact hk

/-- What a read on a descriptor of a regular file does. -/
theorem read_file {fs : FileSys} (hfs : WellFormed fs) {k : Kernel σ}
    (hname : ¬ NamedGr k) {fd : Int} (hlo : 2 ≤ fd) (hhi : fd < 8) {i : Nat}
    {bytes : List Byte} (hslot : FileSlot fs (slotOf k fd) i bytes)
    (buf : Nat → Byte) {nbytes : Int} (hn : 0 ≤ nbytes)
    (hmax : nbytes < 2 ^ 31) :
    Model.read fs k fd (some buf) nbytes =
      (k.modifySlot fd fun s => { s with
        filePos := bytes.length +
          delivered (fs.inodeSt i) bytes.length nbytes },
        .ret (delivered (fs.inodeSt i) bytes.length nbytes : Nat)
          (fillBuffer fs (fs.inodeSt i) bytes.length nbytes buf)) := by
  have hcall := readsSlot fs k fd buf hn
  rw [targetFd_of_not_gr hname] at hcall
  have hread := readF_spec hfs buf hslot.size_le hslot.pos_le hn hmax
  refine hcall.uses (by omega) hhi (by omega) hslot.flags .file hslot.fotp
    (k, bytes.length + delivered (fs.inodeSt i) bytes.length nbytes, _) ?_
  rw [hslot.inode, hslot.filePos]
  simp only [readOp, hread]

/-- The bytes delivered continue the bytes before them. -/
theorem FileSlot.advance {fs : FileSys} {slot : FArray} {i : Nat}
    {bytes : List Byte} (h : FileSlot fs slot i bytes) (buf : Nat → Byte)
    (nbytes : Int) :
    FileSlot fs
      { slot with
        filePos := bytes.length +
          delivered (fs.inodeSt i) bytes.length nbytes }
      i
      (bytes ++ (List.range (delivered (fs.inodeSt i) bytes.length nbytes)).map
        (fillBuffer fs (fs.inodeSt i) bytes.length nbytes buf)) := by
  have hle : delivered (fs.inodeSt i) bytes.length nbytes ≤
      (fs.inodeSt i).size - bytes.length := Nat.min_le_right _ _
  have hpos := h.pos_le
  have hnew : (List.range (delivered (fs.inodeSt i) bytes.length nbytes)).map
      (fillBuffer fs (fs.inodeSt i) bytes.length nbytes buf) =
      (List.range (delivered (fs.inodeSt i) bytes.length nbytes)).map
        fun j => fileByte fs (fs.inodeSt i) (bytes.length + j) := by
    refine List.map_congr_left fun j hj => ?_
    simp only [fillBuffer, if_pos (List.mem_range.1 hj)]
  refine
    { flags := h.flags, fotp := h.fotp, inode := h.inode, size_le := h.size_le
      filePos := ?filePos, pos_le := ?pos_le, first := ?first }
  case filePos => simp
  case pos_le =>
    simp only [List.length_append, List.length_map, List.length_range]
    omega
  case first =>
    rw [hnew]
    simp only [List.length_append, List.length_map, List.length_range,
      List.range_add, List.map_append, List.map_map]
    rw [← h.first]
    rfl

/-- A read keeps the record right. -/
theorem read_tracked {fs : FileSys} (hfs : WellFormed fs) {s : Session σ}
    (hs : Tracked fs s) {fd : Int} {buf : Nat → Byte} {nbytes : Int}
    (hn : 0 ≤ nbytes) (hmax : nbytes < 2 ^ 31) :
    Tracked fs (callStep fs s (.read fd buf nbytes)) := by
  have hcall := readsSlot fs s.kernel fd buf hn
  rw [targetFd_of_not_gr hs.name] at hcall
  cases hopened : s.opened fd with
  | none =>
      -- the record does not change, and neither do the recorded slots
      have hsame : (callStep fs s (.read fd buf nbytes)).opened = s.opened := by
        simp only [callStep, hopened, Option.map_none]
        split
        · exact Function.update_eq_self_iff.2 hopened.symm
        · rfl
      refine { name := namedGr_congr hcall.name hs.name, range := ?range, slot := ?slot }
      case range => rw [hsame]; exact hs.range
      case slot =>
        intro i inode bytes hi
        rw [hsame] at hi
        have hne : i ≠ fd := by
          rintro rfl
          rw [hopened] at hi
          cases hi
        have hkept := hcall.others i hne
        simp only [callStep]
        rw [hkept]
        exact hs.slot i inode bytes hi
  | some f =>
      obtain ⟨i, bytes⟩ := f
      obtain ⟨hlo, hhi⟩ := hs.range fd _ hopened
      have hslot := hs.slot fd i bytes hopened
      have hread := read_file hfs hs.name hlo hhi hslot buf hn hmax
      have hstep : callStep fs s (.read fd buf nbytes) =
          { kernel := s.kernel.modifySlot fd fun s => { s with
              filePos := bytes.length +
                delivered (fs.inodeSt i) bytes.length nbytes }
            opened := Function.update s.opened fd (some (i, bytes ++
              (List.range (delivered (fs.inodeSt i) bytes.length nbytes)).map
                (fillBuffer fs (fs.inodeSt i) bytes.length nbytes buf))) } := by
        simp only [callStep, hread, hopened, Option.map_some, Int.toNat_natCast]
      rw [hstep]
      refine { name := ?name, range := ?range, slot := ?slot }
      case name => exact namedGr_congr (name_modifySlot ..) hs.name
      case range =>
        intro j f hj
        by_cases hj' : j = fd
        · exact hj' ▸ ⟨hlo, hhi⟩
        · simp only [Function.update_of_ne hj'] at hj
          exact hs.range j f hj
      case slot =>
        intro j inode bytes' hj
        by_cases hj' : j = fd
        · subst hj'
          simp only [Function.update_self] at hj
          cases hj
          simp only [slotOf_modifySlot, if_true]
          exact hslot.advance buf nbytes
        · simp only [Function.update_of_ne hj'] at hj
          simp only [slotOf_modifySlot, if_neg hj']
          exact hs.slot j inode bytes' hj

/-- `open` keeps the record right. -/
theorem open_tracked {fs : FileSys} (hfs : WellFormed fs) {s : Session σ}
    (hs : Tracked fs s) (name : CStr) :
    Tracked fs (callStep fs s (.open name)) := by
  have hname := open_name fs s.kernel name
  rcases open_cases fs s.kernel name with
    ⟨hfail, hkept⟩ | ⟨d, fd, hfound, ⟨hlo, hhi, hfree⟩, hret, hslots⟩
  · have hsame : (callStep fs s (.open name)).opened = s.opened := if_pos hfail
    refine
      { name := namedGr_congr hname hs.name, range := ?range, slot := ?slot }
    case range => rw [hsame]; exact hs.range
    case slot =>
      intro i inode bytes hi
      rw [hsame] at hi
      have hold := hs.slot i inode bytes hi
      show FileSlot fs (slotOf (Model.open fs s.kernel name).1 i) inode bytes
      rw [hkept i hold.flags]
      exact hold
  · have hne : (Model.open fs s.kernel name).2 ≠ -1 := by omega
    have hnew : (callStep fs s (.open name)).opened =
        Function.update s.opened fd (openedFile fs name) := by
      rw [← hret]
      exact if_neg hne
    refine
      { name := namedGr_congr hname hs.name, range := ?range, slot := ?slot }
    case range =>
      intro i f hi
      rw [hnew] at hi
      by_cases hi' : i = fd
      · exact hi' ▸ ⟨hlo, hhi⟩
      · rw [Function.update_of_ne hi'] at hi
        exact hs.range i f hi
    case slot =>
      intro i inode bytes hi
      rw [hnew] at hi
      show FileSlot fs (slotOf (Model.open fs s.kernel name).1 i) inode bytes
      rw [hslots]
      by_cases hi' : i = fd
      · subst hi'
        rw [Function.update_self] at hi
        simp only [openedFile, hfound, Option.bind_some] at hi
        split at hi
        · rename_i htype
          cases hi
          rw [if_pos rfl]
          exact
            { flags := nofun
              fotp := by simp [openedSlot, opsOfType, htype]
              inode := rfl
              filePos := rfl
              size_le := hfs.size_le hfound htype
              pos_le := Nat.zero_le _
              first := rfl }
        · cases hi
      · rw [Function.update_of_ne hi'] at hi
        rw [if_neg hi']
        exact hs.slot i inode bytes hi

/-- `close` keeps the record right. -/
theorem close_tracked {fs : FileSys} {s : Session σ} (hs : Tracked fs s)
    (fd : Int) : Tracked fs (callStep fs s (.close fd)) := by
  have hcall := closesSlot fs s.kernel fd
  rw [targetFd_of_not_gr hs.name] at hcall
  have hkept : ∀ i f, (callStep fs s (.close fd)).opened i = some f →
      s.opened i = some f ∧
        slotOf (Model.close fs s.kernel fd).1 i = slotOf s.kernel i := by
    intro i f hi
    simp only [callStep] at hi
    by_cases hi' : i = fd
    · subst hi'
      rcases hcall.cases with ⟨hzero, -⟩ | ⟨hfail, hslot⟩
      · rw [if_pos hzero, Function.update_self] at hi
        cases hi
      · rw [if_neg hfail] at hi
        exact ⟨hi, hslot⟩
    · refine ⟨?_, hcall.others i hi'⟩
      split at hi
      · rwa [Function.update_of_ne hi'] at hi
      · exact hi
  refine
    { name := namedGr_congr hcall.name hs.name, range := ?range, slot := ?slot }
  case range => exact fun i f hi => hs.range i f (hkept i f hi).1
  case slot =>
    intro i inode bytes hi
    obtain ⟨hold, hslot⟩ := hkept i _ hi
    show FileSlot fs (slotOf (Model.close fs s.kernel fd).1 i) inode bytes
    rw [hslot]
    exact hs.slot i inode bytes hold

/-- Every call keeps the record right. -/
theorem callStep_tracked {fs : FileSys} (hfs : WellFormed fs) {s s' : Session σ}
    {e : FdCall} (hs : Tracked fs s) (hstep : CallStep fs s e s') :
    Tracked fs s' := by
  obtain ⟨hvalid, rfl⟩ := hstep
  cases e with
  | «open» name => exact open_tracked hfs hs name
  | read fd buf nbytes => exact read_tracked hfs hs hvalid.1 hvalid.2
  | close fd => exact close_tracked hs fd

/-! ## Whole sessions -/

/-- A list of calls with valid sizes is a session. -/
theorem callStep_run (fs : FileSys) (s : Session σ) (es : List FdCall)
    (hvalid : ∀ e ∈ es, e.Valid) :
    Run (CallStep fs) s es (es.foldl (callStep fs) s) := by
  induction es generalizing s with
  | nil => exact .nil
  | cons e es ih =>
      have hfirst : Run (CallStep fs) s [e] (callStep fs s e) :=
        .single ⟨hvalid e (List.mem_cons_self ..), rfl⟩
      exact hfirst.append (ih _ fun e' he' => hvalid e' (.tail _ he'))

/-- What a process that opened a file on descriptor `fd` and has read `bytes`
from it can rely on. -/
structure Delivers (fs : FileSys) (k : Kernel σ) (fd : Int) (inode : Inode)
    (bytes : List Byte) : Prop where
  /-- The bytes are a beginning of the file. -/
  begins : bytes <+: fileBytes fs inode
  /-- A read returns what is asked for or what is left; these bytes go to the
  front of the buffer and continue the file. -/
  next : ∀ buf nbytes, 0 ≤ nbytes → nbytes < 2 ^ 31 →
    ∃ k' buf', Model.read fs k fd (some buf) nbytes =
        (k', .ret (min nbytes (inode.size - bytes.length)) buf') ∧
      bytes ++ (List.range
        (min nbytes (inode.size - bytes.length)).toNat).map buf' <+:
          fileBytes fs inode ∧
      (∀ j : Nat, min nbytes (inode.size - bytes.length) ≤ j → buf' j = buf j) ∧
      ∀ i, i ≠ fd → slotOf k' i = slotOf k i
  /-- At the end of the file reads return 0. -/
  atEnd : bytes = fileBytes fs inode → ∀ buf nbytes, 0 ≤ nbytes →
    nbytes < 2 ^ 31 → ∃ k', Model.read fs k fd (some buf) nbytes =
      (k', .ret 0 buf)

/-- The slot of an open file is read from its front to its end. -/
theorem FileSlot.delivers {fs : FileSys} (hfs : WellFormed fs) {k : Kernel σ}
    (hname : ¬ NamedGr k) {fd : Int} (hlo : 2 ≤ fd) (hhi : fd < 8) {i : Nat}
    {bytes : List Byte} (h : FileSlot fs (slotOf k fd) i bytes) :
    Delivers fs k fd (fs.inodeSt i) bytes := by
  have hpos := h.pos_le
  have hbegin : ∀ {slot : FArray} {bs : List Byte}, FileSlot fs slot i bs →
      bs <+: fileBytes fs (fs.inodeSt i) := by
    intro slot bs hbs
    rw [hbs.first, fileBytes]
    apply List.IsPrefix.map _
    obtain ⟨m, hm⟩ := Nat.le.dest hbs.pos_le
    rw [← hm, List.range_add]
    exact List.prefix_append ..
  refine { begins := hbegin h, next := ?next, atEnd := ?atEnd }
  case next =>
    intro buf nbytes hn hmax
    have hlen : (delivered (fs.inodeSt i) bytes.length nbytes : Int) =
        min nbytes ((fs.inodeSt i).size - bytes.length) := by
      unfold delivered
      omega
    have hread := read_file hfs hname hlo hhi h buf hn hmax
    have hcall := readsSlot fs k fd buf hn
    rw [targetFd_of_not_gr hname] at hcall
    refine ⟨_, _, hlen ▸ hread, ?_, fun j hj => ?_, fun j hj => ?_⟩
    · rw [← hlen, Int.toNat_natCast]
      exact hbegin (h.advance buf nbytes)
    · rw [fillBuffer, if_neg (by omega)]
    · have hkept := hcall.others j hj
      rw [hread] at hkept
      exact hkept
  case atEnd =>
    intro hend buf nbytes hn hmax
    have hlen : bytes.length = (fs.inodeSt i).size := by
      rw [hend, fileBytes, List.length_map, List.length_range]
    have hzero : delivered (fs.inodeSt i) bytes.length nbytes = 0 := by
      unfold delivered
      omega
    have hbuf : fillBuffer fs (fs.inodeSt i) bytes.length nbytes buf = buf := by
      funext j
      rw [fillBuffer, if_neg (by omega)]
    have hread := read_file hfs hname hlo hhi h buf hn hmax
    rw [hzero, hbuf] at hread
    exact ⟨_, hread⟩

/-- Reading through descriptors delivers each file once and in order, in every
session of a process whose name does not begin with `gr`. -/
theorem files_delivered {fs : FileSys} (hfs : WellFormed fs)
    {s0 s : Session σ} {es : List FdCall} (hname : ¬ NamedGr s0.kernel)
    (h0 : ∀ fd, s0.opened fd = none) (hrun : Run (CallStep fs) s0 es s)
    {fd : Int} {i : Nat} {bytes : List Byte}
    (hopened : s.opened fd = some (i, bytes)) :
    Delivers fs s.kernel fd (fs.inodeSt i) bytes := by
  have hstart : Tracked fs s0 :=
    { name := hname
      range := fun fd f hf => by rw [h0] at hf; cases hf
      slot := fun fd i bytes hf => by rw [h0] at hf; cases hf }
  have hs : Tracked fs s := hrun.invariant (Tracked fs) hstart
    fun _ _ _ hs hstep => callStep_tracked hfs hs hstep
  obtain ⟨hlo, hhi⟩ := hs.range fd _ hopened
  exact (hs.slot fd i bytes hopened).delivers hfs hs.name hlo hhi

/-- A process that has opened nothing through the record. -/
def catSession : Session Nat :=
  { kernel := oneFileKernel catName, opened := fun _ => none }

/-- Open `shell` and read it in pieces of 10 and 100 bytes. -/
def catCalls : List FdCall :=
  [.open shellCmd, .read 2 (fun _ => 0) 10, .read 2 (fun _ => 0) 100]

theorem catCalls_run :
    Run (CallStep SampleImage.shellImage) catSession catCalls
      (catCalls.foldl (callStep SampleImage.shellImage) catSession) := by
  apply callStep_run SampleImage.shellImage catSession catCalls
  simp [catCalls, FdCall.Valid]

theorem cat_reads_shell :
    Run (CallStep SampleImage.shellImage) catSession catCalls
      (catCalls.foldl (callStep SampleImage.shellImage) catSession) ∧
    Delivers SampleImage.shellImage
      (catCalls.foldl (callStep SampleImage.shellImage) catSession).kernel 2
      (SampleImage.shellImage.inodeSt 0) SampleImage.programBytes := by
  have hfs : WellFormed SampleImage.shellImage :=
    { mounted := nofun
      sizes := by
        intro boot hboot i hi htype
        cases hboot
        show 40 ≤ MAX_FILE_SIZE
        decide }
  have hname : ¬ NamedGr catSession.kernel := by
    unfold NamedGr
    decide
  have hopened : (catCalls.foldl (callStep SampleImage.shellImage)
      catSession).opened 2 = some (0, SampleImage.programBytes) := by decide
  exact ⟨catCalls_run,
    files_delivered hfs hname (fun _ => rfl) catCalls_run hopened⟩

end MongOS.Proofs.FileReads
