import XmlStream.Proofs.Simulation.Runs
import XmlStream.Proofs.Wrap.Sources

namespace XmlStream

/-! The command that wraps files, as the calls it makes on the writer of its document. -/

namespace Writer

variable {before after : Writer}

theorem isOk_step_of_perform {request : Call} {nothing : Unit}
    (ok : perform request before = .ok nothing after) :
    (before.step request).1.isOk = true ∧ (before.step request).2 = after := by
  rcases step_eq before request with ⟨answer, steps⟩
  rw [steps, ok]
  exact ⟨rfl, rfl⟩

theorem forM_perform_eq_ok {calls : List Call} {nothing : PUnit} :
    calls.forM perform before = .ok nothing after ↔
      before.Accepts calls ∧ (before.run calls).2 = after := by
  induction calls generalizing before with
  | nil => simp [List.forM, Accepts, run]
  | cons request rest induction =>
      simp only [List.forM, bind_eq_ok, accepts_cons, induction]
      constructor
      · rintro ⟨_, middle, ok, accepts, runs⟩
        rcases isOk_step_of_perform ok with ⟨isOk, leads⟩
        rw [← leads] at accepts runs
        exact ⟨⟨isOk, accepts⟩, runs⟩
      · rintro ⟨⟨isOk, accepts⟩, runs⟩
        exact ⟨_, _, step_ok isOk, accepts, runs⟩

end Writer

namespace Wrap

open Writer (perform)

variable {options : Options} {sources : Sources} {writer after : Writer}

theorem call_eq_ok {request : Call} {nothing : Unit} :
    call request writer = .ok nothing after ↔ perform request writer = .ok nothing after := by
  rcases Writer.step_eq writer request with ⟨answer, steps⟩
  unfold Writer.step at steps
  unfold call
  generalize Writer.call request writer = result at steps ⊢
  generalize perform request writer = performed at steps ⊢
  cases result <;> cases performed <;> simp_all

theorem forM_call_eq_ok {calls : List Call} {nothing : PUnit} :
    calls.forM call writer = .ok nothing after ↔ calls.forM perform writer = .ok nothing after := by
  induction calls generalizing writer with
  | nil => simp [List.forM]
  | cons request rest induction => simp only [List.forM, bind_eq_ok, call_eq_ok, induction]

/-! ## Files -/

/-- A file, and the chunks in which its content arrives. None of them is empty, since an empty one
tells the end of the file. -/
structure Arrival where
  path : String
  content : ByteArray
  chunks : List ByteArray
  whole : chunks.flatMap (fun chunk => chunk.data.toList) = content.data.toList
  notEmpty : ∀ chunk ∈ chunks, chunk.data.toList ≠ []

theorem Arrival.chunks_eq_nil (arrival : Arrival) :
    arrival.chunks = [] ↔ arrival.content.data.toList = [] := by
  rw [← arrival.whole]
  constructor
  · intro none
    rw [none]
    rfl
  · intro empty
    by_contra some_
    rcases List.exists_mem_of_ne_nil _ some_ with ⟨chunk, member⟩
    exact arrival.notEmpty chunk member (List.flatMap_eq_nil_iff.mp empty chunk member)

def Options.tagCalls (options : Options) (path : String) (size : Nat) : List Call :=
  [.startElement (options.elementNamed "file"),
    .attributeString { localName := "name" } ((lastName? path).getD path),
    .attributeString { localName := "size" } (toString size),
    .attributeString { localName := "encoding" } (if options.hexadecimal then "hex" else "base64")]

def Options.fileCalls (options : Options) (arrival : Arrival) : List Call :=
  options.tagCalls arrival.path arrival.content.size ++ arrival.chunks.map options.payload ++
    [.fullEndElement]

def Options.openingCalls (options : Options) : List Call :=
  [.startDocument (if options.standalone then some true else none), .comment generatorNote,
    .startElement (options.elementNamed options.root)]

def Options.documentCalls (options : Options) (arrivals : List Arrival) : List Call :=
  options.openingCalls ++ arrivals.flatMap options.fileCalls ++ [.endDocument, .close]

theorem toList_extract (bytes : ByteArray) (first last : Nat) :
    (bytes.extract first last).data.toList =
      (bytes.data.toList.drop first).take (last - first) := by
  simp [ByteArray.data_extract, Array.toList_extract]

theorem flatMap_extract (bytes : ByteArray) (count : Nat) :
    ((List.range count).flatMap fun index =>
        (bytes.extract (index * chunkSize) ((index + 1) * chunkSize)).data.toList) =
      bytes.data.toList.take (count * chunkSize) := by
  induction count with
  | zero => simp
  | succ count induction =>
      have width : (count + 1) * chunkSize - count * chunkSize = chunkSize := by
        rw [Nat.add_mul, Nat.one_mul, Nat.add_sub_cancel_left]
      rw [List.range_succ, List.flatMap_append, induction, List.flatMap_singleton, toList_extract,
        width, ← List.take_add, Nat.add_mul, Nat.one_mul]

theorem flatMap_chunks (content : ByteArray) :
    (chunks content).flatMap (fun chunk => chunk.data.toList) = content.data.toList := by
  have enough : content.data.toList.length ≤
      (content.size + chunkSize - 1) / chunkSize * chunkSize := by
    have length : content.data.toList.length = content.size := rfl
    rw [length]
    unfold chunkSize
    omega
  rw [chunks, List.flatMap_map, flatMap_extract, List.take_of_length_le enough]

theorem notEmpty_of_mem_chunks {content chunk : ByteArray} (member : chunk ∈ chunks content) :
    chunk.data.toList ≠ [] := by
  rcases List.mem_map.mp member with ⟨index, within, rfl⟩
  have length : content.data.toList.length = content.size := rfl
  rw [List.mem_range] at within
  rw [toList_extract, Ne, List.take_eq_nil_iff, List.drop_eq_nil_iff, length]
  unfold chunkSize at within ⊢
  omega

def Arrival.cut (path : String) (content : ByteArray) : Arrival where
  path
  content
  chunks := Wrap.chunks content
  whole := flatMap_chunks content
  notEmpty _ member := notEmpty_of_mem_chunks member

theorem forM_append (calls more : List Call) :
    (calls ++ more).forM call = (calls.forM call >>= fun _ => more.forM call) :=
  List.forM_append

theorem wrapFile_eq_ok {path : String} {nothing : Unit} :
    wrapFile options sources path writer = .ok nothing after ↔
      ∃ content, (sources.during writer).read path = .ok content ∧
        (options.fileCalls (.cut path content)).forM perform writer = .ok nothing after := by
  have writes (content : ByteArray) : (options.fileCalls (.cut path content)).forM call = (do
      call (.startElement (options.elementNamed "file"))
      plainAttribute "name" ((lastName? path).getD path)
      plainAttribute "size" (toString content.size)
      plainAttribute "encoding" (if options.hexadecimal then "hex" else "base64")
      (chunks content).forM fun chunk => call (options.payload chunk)
      call .fullEndElement) := by
    have pieces : ((chunks content).map options.payload).forM call =
        (chunks content).forM fun chunk => call (options.payload chunk) :=
      List.forM_map
    rw [Options.fileCalls, Options.tagCalls, forM_append, forM_append]
    simp only [Arrival.cut, pieces, List.forM, bind_assoc, bind_pure_unit]
    rfl
  unfold wrapFile
  rw [bind_eq_ok]
  simp only [get_eq_ok]
  constructor
  · rintro ⟨_, _, ⟨rfl, rfl⟩, ok⟩
    cases opens : (sources.during writer).opened path with
    | error cause => simp [opens] at ok
    | ok opened =>
        rw [opens] at ok
        cases opened with
        | directory size => simp [Opened.read, bind_eq_ok] at ok
        | file content =>
            exact ⟨content, FileTree.read_eq_ok.mpr opens, by rwa [← forM_call_eq_ok, writes]⟩
  · rintro ⟨content, reads, ok⟩
    rw [← forM_call_eq_ok, writes] at ok
    refine ⟨_, _, ⟨rfl, rfl⟩, ?_⟩
    rw [FileTree.read_eq_ok.mp reads]
    exact ok

/-- Files are wrapped by calls, with the contents that are found when it is their turn. -/
theorem forM_wrapFile_ok {paths : List String} {nothing : PUnit}
    (ok : (paths.forM fun path => wrapFile options sources path) writer = .ok nothing after) :
    ∃ arrivals : List Arrival, arrivals.map (·.path) = paths ∧
      (∀ arrival ∈ arrivals, ∃ moment, (sources.during moment).read arrival.path =
        .ok arrival.content) ∧
      (arrivals.flatMap options.fileCalls).forM perform writer = .ok () after := by
  induction paths generalizing writer with
  | nil =>
      simp only [List.forM, pure_eq_ok, true_and] at ok
      exact ⟨[], rfl, by simp, by simp [ok]⟩
  | cons path rest induction =>
      simp only [List.forM, bind_eq_ok] at ok
      rcases ok with ⟨_, middle, wraps, ok⟩
      rcases wrapFile_eq_ok.mp wraps with ⟨content, reads, calls⟩
      rcases induction ok with ⟨arrivals, paths, found, more⟩
      refine ⟨.cut path content :: arrivals, by simp [Arrival.cut, paths], ?_, ?_⟩
      · rintro arrival (_ | ⟨_, member⟩)
        · exact ⟨writer, reads⟩
        · exact found arrival member
      · rw [List.flatMap_cons, ← forM_call_eq_ok, forM_append]
        simp only [bind_eq_ok, forM_call_eq_ok]
        exact ⟨_, middle, calls, more⟩

/-! ## Documents -/

def wrapUpTo (options : Options) (sources : Sources) (paths : List String) : Action Unit := do
  options.openingCalls.forM call
  paths.forM fun path => wrapFile options sources path

theorem wrapFiles_eq (options : Options) (sources : Sources) :
    wrapFiles options sources = (do
      wrapUpTo options sources options.files
      call .endDocument
      call .close) := by
  simp only [wrapFiles, wrapUpTo, Options.openingCalls, List.forM, bind_assoc, pure_bind]

theorem wrapUpTo_append (options : Options) (sources : Sources) (paths more : List String) :
    wrapUpTo options sources (paths ++ more) = (do
      wrapUpTo options sources paths
      more.forM fun path => wrapFile options sources path) := by
  have parts : ((paths ++ more).forM fun path => wrapFile options sources path) = (do
      paths.forM fun path => wrapFile options sources path
      more.forM fun path => wrapFile options sources path) := List.forM_append
  simp only [wrapUpTo, parts, bind_assoc]

theorem wrapUpTo_ok {paths : List String} {nothing : Unit}
    (ok : wrapUpTo options sources paths writer = .ok nothing after) :
    ∃ arrivals : List Arrival, arrivals.map (·.path) = paths ∧
      (∀ arrival ∈ arrivals, ∃ moment, (sources.during moment).read arrival.path =
        .ok arrival.content) ∧
      (options.openingCalls ++ arrivals.flatMap options.fileCalls).forM perform writer =
        .ok () after := by
  simp only [wrapUpTo, bind_eq_ok] at ok
  rcases ok with ⟨_, middle, opens, ok⟩
  rcases forM_wrapFile_ok ok with ⟨arrivals, paths, found, more⟩
  refine ⟨arrivals, paths, found, ?_⟩
  rw [← forM_call_eq_ok, forM_append]
  simp only [bind_eq_ok]
  exact ⟨_, middle, opens, forM_call_eq_ok.mpr more⟩

end Wrap

end XmlStream
