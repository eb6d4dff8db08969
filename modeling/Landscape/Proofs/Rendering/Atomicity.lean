import Landscape.Proofs.Files.Targets
import Landscape.Proofs.Png.Decoding
import Landscape.Proofs.Rendering.Drawing

namespace Landscape

theorem savePicture_of_size {picture : Png.Image} {path : String} {tree : Node} {codec : Png.Codec}
    (hsize : picture.rgba.size = picture.width.toNat * picture.height.toNat * 4)
    (hfits : picture.width.toNat * picture.height.toNat * 4 < UInt64.size) :
    savePicture path picture tree codec =
      match tree.wayToFile path with
      | .error e => (.error (.problem (.fileNotCreated path e)), tree)
      | .ok way =>
        match codec.encode picture with
        | .error e => (.error (.problem (.notEncoded path e)), tree.put way (.file ByteArray.empty))
        | .ok file => (.ok (), tree.put way (.file file)) := by
  unfold savePicture
  exact (if_neg (Nat.not_le.mpr hfits)).trans (if_neg fun h => h hsize)

inductive Renderer.Ends (r : Renderer) (typeface : Typeface) (codec : Png.LawfulCodec) (m : Mesh)
    (relief : Relief) (theme : Theme) (tree : Node) : Except Failure String → Node → Prop where
  | notFinished {e : Failure} : r.chart typeface m relief theme = .error e →
      Ends r typeface codec m relief theme tree (.error e) tree
  | notCreated {chart : Chart} {e : FileError} : r.chart typeface m relief theme = .ok chart →
      tree.wayToFile (r.target theme) = .error e →
      Ends r typeface codec m relief theme tree
        (.error (.problem (.fileNotCreated (r.target theme) e))) tree
  | notEncoded {chart : Chart} {way : List String} {e : Png.EncodeError} :
      r.chart typeface m relief theme = .ok chart → tree.wayToFile (r.target theme) = .ok way →
      codec.encode (r.picture chart theme) = .error e →
      Ends r typeface codec m relief theme tree
        (.error (.problem (.notEncoded (r.target theme) e))) (tree.put way (.file ByteArray.empty))
  | written {chart : Chart} {way : List String} {file : ByteArray} :
      r.chart typeface m relief theme = .ok chart → tree.wayToFile (r.target theme) = .ok way →
      codec.encode (r.picture chart theme) = .ok file →
      Ends r typeface codec m relief theme tree (.ok (r.target theme)) (tree.put way (.file file))

theorem Renderer.render_ends (r : Renderer) (typeface : Typeface) (codec : Png.LawfulCodec) (m : Mesh)
    (relief : Relief) (theme : Theme) (tree : Node) :
    r.Ends typeface codec m relief theme tree (r.render typeface m relief theme tree codec).result
      (r.render typeface m relief theme tree codec).tree := by
  unfold render
  rcases hchart : r.chart typeface m relief theme with e | chart
  · exact .notFinished hchart
  · dsimp only
    rw [savePicture_of_size (r.size_picture chart theme) (bytes_lt hchart)]
    rcases hway : tree.wayToFile (r.target theme) with e | way
    · exact .notCreated hchart hway
    · rcases hencode : codec.encode (r.picture chart theme) with e | file
      · exact .notEncoded hchart hway hencode
      · exact .written hchart hway hencode

/-- What a render may have done to the files: on success it changed the one at its path, after an
encoding error, which takes a side of zero, it left that one empty, and after any other failure it did
nothing. -/
def Renderer.Atomic (r : Renderer) (theme : Theme) (tree after : Node) : Except Failure String → Prop
  | .ok path => path = r.target theme ∧
      (∃ file, after.entryAt? (Path.namesOf path) = some (.file file)) ∧
      tree.SameBut (Path.namesOf path) after
  | .error (.problem (.notEncoded path _)) => path = r.target theme ∧
      (r.width = 0 ∨ r.height = 0) ∧
      after.entryAt? (Path.namesOf path) = some (.file ByteArray.empty) ∧
      tree.SameBut (Path.namesOf path) after
  | .error _ => after = tree

theorem Renderer.Ends.atomic {r : Renderer} {typeface : Typeface} {codec : Png.LawfulCodec} {m : Mesh}
    {relief : Relief} {theme : Theme} {tree after : Node} {result : Except Failure String}
    (h : r.Ends typeface codec m relief theme tree result after) : r.Atomic theme tree after result := by
  cases h with
  | notFinished hchart =>
    -- None of the failures in drawing is one of encoding.
    cases draws_chart _ hchart <;> rfl
  | notCreated => rfl
  | notEncoded _ hway hencode =>
    have hside := Png.LawfulCodec.side_eq_zero (r.size_picture _ theme) hencode
    have hroom := Node.room_of_wayToFile hway
    rw [Node.names_of_wayToFile hway] at hroom ⊢
    exact ⟨rfl, hside, Node.entryAt?_put_self hroom _,
      Node.sameBut_put hroom _⟩
  | written _ hway _ =>
    have hroom := Node.room_of_wayToFile hway
    rw [Node.names_of_wayToFile hway] at hroom ⊢
    exact ⟨rfl, ⟨_, Node.entryAt?_put_self hroom _⟩, Node.sameBut_put hroom _⟩

/-- Rendering is atomic whatever the renderer, the mesh, the relief and the files, and a difference in
shape is reported before all else. -/
theorem Renderer.render_atomic (r : Renderer) (typeface : Typeface) (codec : Png.LawfulCodec) (m : Mesh)
    (relief : Relief) (theme : Theme) (tree : Node) :
    let outcome := r.render typeface m relief theme tree codec
    r.Atomic theme tree outcome.tree outcome.result ∧
      (relief.size ≠ m.size →
        outcome = ⟨.error (.problem (.shapesDiffer relief.size m.size)), tree, []⟩) := by
  intro outcome
  refine ⟨(r.render_ends typeface codec m relief theme tree).atomic, ?_⟩
  intro hshape
  show r.render typeface m relief theme tree codec = _
  rw [render, chart_of_shapes_differ hshape]

end Landscape
