import DocClient.Blob.Store
import DocClient.Proofs.Blob.Loading
import DocClient.Proofs.Query.Listing

/-! Reading a file to its end, whatever chunks the server brings for it. Main statement:
`length_eq_size_iff_of_readToEnd`, by which a read that succeeds gives as many bytes as the file is said to have
exactly if the chunks hold as many. -/
namespace DocClient.Blob.File

/-! ### Chunks as they come -/

/-- The content that the replies to a query for chunks bring, or nothing if nothing was asked for. -/
inductive Brings : List Exchange → Bytes → Prop
  | unasked : Brings [] []
  | chunks {first : Exchange} {rest : List Exchange} {docs : List Document} {datas : List Bytes}
      (opens : first.reply.Opens (rest.map Exchange.reply) docs)
      (payloads : docs.map (fun doc => chunkPayload (Value.ofDocument doc)) = datas.map .ok) :
      Brings (first :: rest) datas.flatten

/-- The chunks that are loaded from a cursor are the payloads of all documents that the replies brought. -/
theorem yields_of_plays_loadFrom {c : Cursor} {rounds : Nat} {log : List Exchange} {datas : List Bytes}
    (h : (loadFrom rounds (.ofSource c)).run.Plays log (.ok datas)) :
    ∃ docs, Yields c.id c.batch (log.map Exchange.reply) docs ∧
      docs.map (fun doc => chunkPayload (Value.ofDocument doc)) = datas.map .ok := by
  induction rounds generalizing c log datas with
  | zero => exact absurd h Program.not_plays_exhausted
  | succ rounds ih =>
    rw [loadFrom, Call.run_lift_bind] at h
    obtain ⟨⟨v, it⟩, first, rest, rfl, hnext, hrest⟩ := Program.plays_bind.mp h
    cases Iter.yields_of_plays_nextValue hnext with
    | document doc yields =>
      obtain ⟨data, hdata, hmore⟩ := Call.plays_settled_bind_ok.mp hrest
      obtain ⟨datas', loaded, last, rfl, hloaded, hlast⟩ := Call.plays_bind_ok.mp hmore
      obtain ⟨rfl, hresult⟩ := Program.plays_done.mp hlast
      obtain rfl := Except.ok.inj hresult
      obtain ⟨docs, hdocs, hdatas⟩ := ih hloaded
      refine ⟨doc :: docs, ?_, congrArg₂ List.cons hdata hdatas⟩
      rw [List.append_nil, List.map_append]
      exact yields _ _ hdocs
    | ended err isDone yields =>
      obtain ⟨_, -, hdone⟩ := Call.plays_settled_bind_ok.mp hrest
      obtain ⟨rfl, hresult⟩ := Program.plays_done.mp hdone
      obtain rfl := Except.ok.inj hresult
      exact ⟨[], by rwa [List.append_nil], rfl⟩
    | failed e err =>
      obtain ⟨_, hclose, -⟩ := Call.plays_settled_bind_ok.mp hrest
      simp [Iter.close, err] at hclose

/-- Nothing is loaded from a query that failed. -/
theorem not_plays_loadFrom_of_failed {e : Error} {rounds : Nat} {log : List Exchange} {datas : List Bytes} :
    ¬ (loadFrom rounds (.failed e)).run.Plays log (.ok datas) := by
  intro h
  cases rounds with
  | zero => exact Program.not_plays_exhausted h
  | succ rounds =>
    rw [loadFrom, Call.run_lift_bind] at h
    obtain ⟨_, first, rest, rfl, hnext, hrest⟩ := Program.plays_bind.mp h
    obtain ⟨rfl, rfl⟩ := Program.plays_done.mp hnext
    obtain ⟨_, hclose, -⟩ := Call.plays_settled_bind_ok.mp hrest
    cases hclose

variable {f : File} {log : List Exchange}

theorem brings_of_plays_loadChunks {chunks : List Bytes} (h : f.loadChunks.run.Plays log (.ok chunks)) :
    Brings log chunks.flatten := by
  unfold loadChunks at h
  rw [Call.run_lift_bind] at h
  obtain ⟨it, opening, rest, rfl, hiter, hload⟩ := Program.plays_bind.mp h
  obtain ⟨e, -, rfl⟩ | ⟨k, reply, -, rfl, rfl⟩ := Query.plays_iter hiter
  · exact absurd hload not_plays_loadFrom_of_failed
  cases hbatch : reply.batch "firstBatch" with
  | error e =>
    rw [hbatch] at hload
    exact absurd hload not_plays_loadFrom_of_failed
  | ok batch =>
    rw [hbatch] at hload
    obtain ⟨docs, hdocs, hdatas⟩ := yields_of_plays_loadFrom hload
    exact .chunks ⟨batch, hbatch, hdocs⟩ hdatas

/-! ### Reading what was loaded -/

/-- An open file whose chunks are loaded, however much they hold, with what is left to read of them. -/
structure Readable (f : File) (left : Bytes) : Prop extends f.Ready where
  position : f.position.Stands f.chunks left

/-- A read takes as much as the room holds, as the file is said to have, and as there is. -/
theorem read_of_readable {left : Bytes} (h : f.Readable left) {room : Nat}
    (hroom : room ≤ f.length - f.position.consumed) :
    ∃ g, f.read room = .done (.ok (left.take room), g) ∧ g.Readable (left.drop room) ∧
      g.length - g.position.consumed = f.length - f.position.consumed - (left.take room).length := by
  obtain ⟨hdata, hafter, hconsumed⟩ := copyFrom_of_stands h.position rfl f.length room
  rw [Nat.min_eq_left hroom] at hdata hafter
  have hread : f.read room = .done (.ok (left.take room), (f.copyNext room).2) := by
    rw [read_of_ready h.toReady, ← hdata]
    rfl
  refine ⟨_, hread, ⟨h.toReady.copyNext room, hafter⟩, ?_⟩
  rw [← hdata, Nat.sub_sub, ← hconsumed]
  rfl

/-- What follows the first read of those that fill a room. -/
def fillUp (room : Nat) : Except Error Bytes × File → Program (Except Error Bytes × File)
  | (.error e, f) => .done (.error e, f)
  | (.ok data, f) =>
    if 0 < data.length ∧ data.length < room then
      (f.readUpTo (room - data.length)).bind fun (rest, f) => .done (rest.map (data ++ ·), f)
    else .done (.ok data, f)

theorem readUpTo_of_ne_zero {room : Nat} (h : room ≠ 0) (f : File) :
    f.readUpTo room = (f.read room).bind (fillUp room) := by
  rw [readUpTo, if_neg h]
  refine congrArg _ (funext fun r => ?_)
  obtain ⟨_ | data, f⟩ := r
  · rfl
  · exact dite_eq_ite

/-- Reading on until a room is filled gives what there is for it, and asks nobody. -/
theorem readUpTo_of_readable {left : Bytes} (h : f.Readable left) {room : Nat}
    (hroom : room ≤ f.length - f.position.consumed) :
    ∃ g, f.readUpTo room = .done (.ok (left.take room), g) := by
  induction room using Nat.strongRecOn generalizing f left with
  | _ room ih =>
    by_cases hzero : room = 0
    · subst hzero
      exact ⟨f, by rw [readUpTo, if_pos rfl]; rfl⟩
    obtain ⟨g, hread, hg, hleft⟩ := read_of_readable h hroom
    rw [readUpTo_of_ne_zero hzero, hread, Program.done_bind, fillUp]
    by_cases hmore : 0 < (left.take room).length ∧ (left.take room).length < room
    · -- The chunks have come to their end, so that the next read gives nothing.
      have hend : left.drop room = [] := by
        rw [List.length_take] at hmore
        exact List.drop_of_length_le (by omega)
      obtain ⟨g', hg'⟩ := ih (room - (left.take room).length) (by omega) hg (by omega)
      refine ⟨g', ?_⟩
      rw [if_pos hmore, hg', hend, List.take_nil, Program.done_bind]
      exact congrArg (fun data => Program.done (Except.ok data, g')) (List.append_nil _)
    · exact ⟨g, if_neg hmore⟩

/-- A file that is read to its end loads its chunks, and gives the beginning of what they hold. -/
theorem readToEnd_of_unread (h : f.Unread) (hlength : f.length ≠ 0) :
    ∃ g : List Bytes → File, f.readToEnd = f.loadChunks.run.bind fun
      | .error e => .done (.error e, f)
      | .ok chunks => .done (.ok (chunks.flatten.take f.length), g chunks) := by
  have hreadable (chunks : List Bytes) : ({ f with chunks, loaded := true } : File).Readable chunks.flatten := by
    refine ⟨⟨h.opened, h.reading, rfl⟩, ?_⟩
    dsimp only
    rw [h.position]
    exact Position.stands_start chunks
  have hremaining : f.length - f.position.consumed = f.length := by
    rw [h.position]
    rfl
  choose g hg using fun chunks => readUpTo_of_readable (hreadable chunks) hremaining.ge
  refine ⟨g, ?_⟩
  unfold readToEnd
  rw [hremaining, readUpTo_of_ne_zero hlength, read_of_unread h, Program.bind_assoc]
  refine congrArg _ (funext fun outcome => ?_)
  cases outcome with
  | error e => rfl
  | ok chunks => exact (readUpTo_of_ne_zero hlength _).symm.trans (hg chunks)

variable {s : Store} {v : Value}

theorem unread_ofDescription (s : Store) (v : Value) : (ofDescription s v).Unread := ⟨rfl, rfl, rfl, rfl⟩

/-- A file that is opened on a description and read to its end without an error gives the content that the replies
bring, up to the length that the description states. That is as long as stated exactly if the content is not
shorter. -/
theorem length_eq_size_iff_of_readToEnd {bytes : Bytes} {g : File}
    (h : (ofDescription s v).readToEnd.Plays log (.ok bytes, g)) :
    ∃ content, Brings log content ∧ bytes = content.take (ofDescription s v).length ∧
      (bytes.length = (ofDescription s v).length ↔ (ofDescription s v).length ≤ content.length) := by
  have hbrings : ∃ content, Brings log content ∧ bytes = content.take (ofDescription s v).length := by
    have hunread := unread_ofDescription s v
    generalize ofDescription s v = f at h hunread
    by_cases hlength : f.length = 0
    · unfold readToEnd at h
      rw [hlength, Nat.zero_sub, readUpTo, if_pos rfl] at h
      obtain ⟨rfl, hresult⟩ := Program.plays_done.mp h
      cases hresult
      exact ⟨[], .unasked, List.take_nil.symm⟩
    · obtain ⟨after, hread⟩ := readToEnd_of_unread hunread hlength
      rw [hread] at h
      obtain ⟨_ | chunks, loaded, rest, rfl, hload, hdone⟩ := Program.plays_bind.mp h
      · cases (Program.plays_done.mp hdone).2
      obtain ⟨rfl, hresult⟩ := Program.plays_done.mp hdone
      cases hresult
      rw [List.append_nil]
      exact ⟨_, brings_of_plays_loadChunks hload, rfl⟩
  obtain ⟨content, hcontent, rfl⟩ := hbrings
  refine ⟨content, hcontent, rfl, ?_⟩
  rw [List.length_take]
  omega

/-! ### A file of which two bytes are there -/

namespace Sample

def shelf : Store := Database.blobs ⟨"app", .primary, none, 8⟩ "fs"

def id : Oid := ⟨List.replicate 12 0, rfl⟩

def description (size : Int64) : Value := Value.ofDocument ⟨[("_id", .objectId id), ("length", .int64 size)]⟩

def chunk : Document := ⟨[("data", Bson.genericBinary [97, 98])]⟩

def chunks : Reply :=
  .document ⟨[("ok", .int32 1), ("cursor", .document [("id", .int64 0), ("ns", .string "app.fs.chunks"),
    ("firstBatch", .array [.ofDocument chunk])])]⟩

/-- Two bytes are brought for the file, whatever its description says. -/
theorem exists_plays_readToEnd (size : Int64) (hsize : (ofDescription shelf (description size)).length ≠ 0) :
    ∃ log g, (ofDescription shelf (description size)).readToEnd.Plays log
      (.ok (List.take (ofDescription shelf (description size)).length [97, 98]), g) := by
  have hid : (ofDescription shelf (description size)).id = .objectId (.ofOid id) := rfl
  obtain ⟨k, -, hplays⟩ := exists_plays_loadChunks hid
  obtain ⟨log, hload, -⟩ := hplays chunks [] [chunk] [[97, 98]] ⟨_, rfl, .last _⟩ rfl
    (show 0 ≤ 8 by decide) (show 1 < 8 by decide)
  obtain ⟨g, hread⟩ := readToEnd_of_unread (unread_ofDescription shelf (description size)) hsize
  rw [hread]
  exact ⟨_, g [[97, 98]], Program.plays_bind.mpr ⟨_, _, [], (List.append_nil _).symm, hload, .done _⟩⟩

end Sample

/-- A description that states two bytes is read as long as it states, and the replies bring as much. -/
theorem reads_two_of_two :
    ∃ log bytes g, (ofDescription Sample.shelf (Sample.description 2)).readToEnd.Plays log (.ok bytes, g) ∧
      bytes.length = (ofDescription Sample.shelf (Sample.description 2)).length ∧
      ∃ content, Brings log content ∧ 2 ≤ content.length := by
  obtain ⟨log, g, h⟩ := Sample.exists_plays_readToEnd 2 (by decide)
  obtain ⟨content, hbrings, -, hlength⟩ := length_eq_size_iff_of_readToEnd h
  exact ⟨log, _, g, h, rfl, content, hbrings, hlength.mp rfl⟩

/-- A description that states three bytes is read without an error, and two bytes are given. -/
theorem reads_two_of_three :
    ∃ log bytes g, (ofDescription Sample.shelf (Sample.description 3)).readToEnd.Plays log (.ok bytes, g) ∧
      (ofDescription Sample.shelf (Sample.description 3)).length = 3 ∧ bytes.length = 2 := by
  obtain ⟨log, g, h⟩ := Sample.exists_plays_readToEnd 3 (by decide)
  exact ⟨log, _, g, h, rfl, rfl⟩

end DocClient.Blob.File
