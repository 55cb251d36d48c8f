import HyperRuby.Http.Message

/-! # Filling a Ruby string with a body

`fill_buffer` makes room in a string that the handler owns, copies the body into its memory
and sets its length. The room asked for is counted from the capacity while the C API counts
it from the length, so a string that was not full may end up too small.
-/
namespace HyperRuby.Http
open Framing

/-- A Ruby string: the memory allocated for it, and how much of that is its content. -/
structure RString where
  memory : Bytes
  len : ℕ
  fits : len ≤ memory.length
  deriving DecidableEq

namespace RString

def capacity (s : RString) : ℕ := s.memory.length

def content (s : RString) : Bytes := s.memory.take s.len

/-- `rb_str_modify_expand`: room for `expand` bytes behind the content, and no more. -/
def modifyExpand (s : RString) (expand : ℕ) : RString :=
  ⟨s.content ++ List.replicate expand 0, s.len, by simp [content, s.fits]⟩

/-- `rb_str_modify` on a string that is not shared. -/
def modify (s : RString) : RString := s

end RString

/-- A write or a length beyond the memory of a string. -/
inductive Overrun where
  | copy
  | setLen
  deriving DecidableEq, Repr

/-- `ptr::copy` to the front of the memory of a string. -/
def copyBody (s : RString) (body : Bytes) : Except Overrun RString :=
  if h : body.length ≤ s.capacity then
    .ok ⟨body ++ s.memory.drop body.length, s.len, by
      have := s.fits
      simp only [RString.capacity] at h
      simp only [List.length_append, List.length_drop]
      omega⟩
  else .error .copy

/-- `rb_str_set_len`. -/
def setLen (s : RString) (n : ℕ) : Except Overrun RString :=
  if h : n ≤ s.capacity then .ok ⟨s.memory, n, h⟩ else .error .setLen

def reserve (s : RString) (bodyLen : ℕ) : RString :=
  if s.capacity < bodyLen then s.modifyExpand (bodyLen - s.capacity) else s.modify

/-- An empty body is not copied. -/
def copyIn (s : RString) (body : Bytes) : Except Overrun RString :=
  if 0 < body.length then copyBody s body else .ok s

/-- The string filled with the body, and the length returned. -/
def fillBuffer (body : Bytes) (s : RString) : Except Overrun (RString × ℕ) := do
  let s ← copyIn (reserve s body.length) body
  let s ← setLen s body.length
  return (s, body.length)

def RubyRequest.fillBody (request : RubyRequest) (buffer : RString) :
    Except Overrun (RString × ℕ) := fillBuffer request.getBodyBytes buffer

/-- The bodies of requests filled into one buffer, one after another. -/
def fillBodies : List RubyRequest → RString → Except Overrun RString
  | [], buffer => .ok buffer
  | request :: requests, buffer => do
    let (buffer, _) ← request.fillBody buffer
    fillBodies requests buffer

section Once
variable {s : RString} {body : Bytes}

theorem content_length (s : RString) : s.content.length = s.len := by
  rw [RString.content, List.length_take, Nat.min_eq_left s.fits]

theorem reserve_capacity (s : RString) (n : ℕ) :
    (reserve s n).capacity = if s.capacity < n then s.len + (n - s.capacity) else s.capacity := by
  unfold reserve
  split_ifs
  · simp [RString.modifyExpand, RString.capacity, content_length]
  · rfl

/-- The room reserved holds the body if the body fits already or the string is full. -/
theorem reserve_room (s : RString) (n : ℕ) :
    n ≤ (reserve s n).capacity ↔ n ≤ s.capacity ∨ s.len = s.capacity := by
  have hfits := s.fits
  rw [reserve_capacity]
  unfold RString.capacity
  split_ifs <;> omega

theorem reserve_capacity_of_room {n : ℕ} (h : n ≤ (reserve s n).capacity) :
    (reserve s n).capacity = max s.capacity n := by
  have hroom := (reserve_room s n).mp h
  rw [reserve_capacity]
  split_ifs <;> omega

theorem copyIn_of_le (h : body.length ≤ s.capacity) :
    ∃ t, copyIn s body = .ok t ∧ t.memory = body ++ s.memory.drop body.length := by
  unfold copyIn
  by_cases hpos : 0 < body.length
  · rw [if_pos hpos, copyBody, dif_pos h]
    exact ⟨_, rfl, rfl⟩
  · rw [if_neg hpos]
    obtain rfl : body = [] := List.length_eq_zero_iff.mp (by omega)
    exact ⟨s, rfl, rfl⟩

theorem fillBuffer_of_room (h : body.length ≤ (reserve s body.length).capacity) :
    ∃ t, fillBuffer body s = .ok (t, body.length) ∧ t.content = body ∧
      t.len = body.length ∧ t.capacity = max s.capacity body.length := by
  obtain ⟨u, hcopy, hmemory⟩ := copyIn_of_le h
  have hcapacity : u.capacity = max s.capacity body.length := by
    rw [← reserve_capacity_of_room h, RString.capacity, hmemory, List.length_append,
      List.length_drop]
    exact Nat.add_sub_of_le h
  have hlen : body.length ≤ u.capacity := by
    rw [hcapacity]
    exact Nat.le_max_right _ _
  refine ⟨⟨u.memory, body.length, hlen⟩, ?_, ?_, rfl, hcapacity⟩
  · rw [fillBuffer, hcopy]
    simp only [setLen, dif_pos hlen, bind, Except.bind, pure, Except.pure]
  · show u.memory.take body.length = body
    rw [hmemory, List.take_left]

theorem fillBuffer_of_no_room (h : ¬ body.length ≤ (reserve s body.length).capacity) :
    fillBuffer body s = .error .copy := by
  have hpos : 0 < body.length := by omega
  rw [fillBuffer, copyIn, if_pos hpos, copyBody, dif_neg h]
  rfl

theorem fillBody_new (request : RubyRequest) {buffer : RString}
    (h : request.getBodySize ≤ buffer.capacity) :
    ∃ t, request.fillBody buffer = .ok (t, request.getBodySize) ∧
      t.content = request.getBodyBytes := by
  rw [getBodySize_eq] at h ⊢
  obtain ⟨t, hfill, hcontent, -⟩ := fillBuffer_of_room ((reserve_room buffer _).mpr (.inl h))
  exact ⟨t, hfill, hcontent⟩

end Once

section Reuse

def high (capacity : ℕ) (lengths : List ℕ) : ℕ := lengths.foldl max capacity

def previous (len : ℕ) (lengths : List ℕ) : ℕ := lengths.getLast?.getD len

/-- Every length is within the capacity and the lengths before it, or comes when the last of
them was the largest, so that the string is full. -/
def Roomy (len capacity : ℕ) (lengths : List ℕ) : Prop :=
  ∀ before n after, lengths = before ++ n :: after →
    n ≤ high capacity before ∨ previous len before = high capacity before

theorem previous_cons (len n : ℕ) (lengths : List ℕ) :
    previous len (n :: lengths) = previous n lengths := by
  cases lengths with
  | nil => rfl
  | cons m lengths => simp [previous, List.getLast?_cons]

theorem roomy_cons {len capacity n : ℕ} {lengths : List ℕ} :
    Roomy len capacity (n :: lengths) ↔
      (n ≤ capacity ∨ len = capacity) ∧ Roomy n (max capacity n) lengths := by
  constructor
  · intro h
    refine ⟨h [] n lengths rfl, ?_⟩
    intro before m after hsplit
    have := h (n :: before) m after (by rw [hsplit, List.cons_append])
    rwa [previous_cons] at this
  · rintro ⟨hfirst, hrest⟩ before m after hsplit
    cases before with
    | nil =>
      obtain ⟨rfl, -⟩ := List.cons.inj hsplit
      exact hfirst
    | cons k before =>
      obtain ⟨rfl, htail⟩ := List.cons.inj hsplit
      rw [previous_cons]
      exact hrest before m after htail

/-- The content of the buffer after its last fill. -/
def lastBody (buffer : RString) (requests : List RubyRequest) : Bytes :=
  (requests.getLast?.map RubyRequest.getBodyBytes).getD buffer.content

theorem fillBodies_cons (request : RubyRequest) (requests : List RubyRequest) (buffer : RString) :
    (request.getBodyBytes.length ≤ buffer.capacity ∨ buffer.len = buffer.capacity) ∧
      (∃ t, fillBodies (request :: requests) buffer = fillBodies requests t ∧
        t.content = request.getBodyBytes ∧ t.len = request.getBodyBytes.length ∧
        t.capacity = max buffer.capacity request.getBodyBytes.length) ∨
    ¬ (request.getBodyBytes.length ≤ buffer.capacity ∨ buffer.len = buffer.capacity) ∧
      fillBodies (request :: requests) buffer = .error .copy := by
  have hroom := reserve_room buffer request.getBodyBytes.length
  by_cases h : request.getBodyBytes.length ≤ (reserve buffer request.getBodyBytes.length).capacity
  · left
    obtain ⟨t, hfill, hcontent, hlen, hcapacity⟩ := fillBuffer_of_room h
    refine ⟨hroom.mp h, t, ?_, hcontent, hlen, hcapacity⟩
    rw [fillBodies, RubyRequest.fillBody, hfill]
    rfl
  · right
    refine ⟨fun hfits => h (hroom.mpr hfits), ?_⟩
    rw [fillBodies, RubyRequest.fillBody, fillBuffer_of_no_room h]
    rfl

/-- A buffer can be filled again and again, and holds the last body afterwards, exactly when
each body finds room by its length alone. -/
theorem fillBodies_iff (requests : List RubyRequest) (buffer : RString) :
    (∃ t, fillBodies requests buffer = .ok t ∧ t.content = lastBody buffer requests) ↔
      Roomy buffer.len buffer.capacity
        (requests.map (fun request => request.getBodyBytes.length)) := by
  induction requests generalizing buffer with
  | nil =>
    refine ⟨fun _ before n after hsplit => ?_, fun _ => ⟨buffer, rfl, rfl⟩⟩
    simp at hsplit
  | cons request requests ih =>
    rw [List.map_cons, roomy_cons]
    rcases fillBodies_cons request requests buffer with
      ⟨hfirst, t, hfill, hcontent, hlen, hcapacity⟩ | ⟨hfirst, hfill⟩
    · have hlast : lastBody buffer (request :: requests) = lastBody t requests := by
        cases requests with
        | nil => exact hcontent.symm
        | cons other requests => simp [lastBody, List.getLast?_cons]
      rw [hfill, hlast, ih t, hlen, hcapacity]
      exact ⟨fun hrest => ⟨hfirst, hrest⟩, fun h => h.2⟩
    · rw [hfill]
      constructor
      · rintro ⟨t, ht, -⟩
        cases ht
      · intro h
        exact absurd h.1 hfirst

/-- An empty string with room for ten bytes is given room for five when fifteen arrive. -/
theorem fillBodies_overrun :
    (reserve ⟨List.replicate 10 0, 0, by decide⟩ 15).capacity = 5 ∧
    fillBodies [.http ⟨.post, [0x2f], [], List.replicate 15 97⟩]
      ⟨List.replicate 10 0, 0, by decide⟩ = .error .copy := by
  decide

end Reuse
end HyperRuby.Http
