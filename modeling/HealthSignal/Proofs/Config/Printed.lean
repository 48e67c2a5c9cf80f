import HealthSignal.CommandLine
import HealthSignal.Proofs.Toml.Document

/-! Printed configurations: what is shown of a configuration reads as that configuration. -/
namespace HealthSignal
open Config (optional)
open Toml (Plain)
open Toml.Plain (Fits IsScalar toTable written)

/-! ### Fields -/

namespace Config
namespace Decoder

variable {α : Type} {set : α → String → Toml.Value → Except SchemaError α}

theorem record_table (name : String) (names : List String) (default : α) (members : Toml.Table) :
    record name names default set (.table members) = fill set default members := rfl

theorem fill_append {r between r' : α} {fields more : Toml.Table} (hfields : fill set r fields = .ok between)
    (hmore : fill set between more = .ok r') : fill set r (fields ++ more) = .ok r' := by
  rw [fill, List.foldlM_append, ← fill, hfields]
  exact hmore

/-- An option is read as it was written: left out, it stays unset. -/
theorem fill_optional {key : String} (put : Option String → α)
    (hset : ∀ s, set (put none) key (.text s) = .ok (put (some s))) (o : Option String) :
    fill set (put none) (toTable (optional key o)) = .ok (put o) := by
  cases o with
  | none => rfl
  | some s => simp [optional, toTable, Plain.toValue, fill, hset]

theorem port_toNat (p : UInt16) : port (.integer p.toNat) = .ok p := by
  rw [port, if_pos]
  · simp
  · have := p.toNat_lt
    simp [UInt16.size]
    omega

end Decoder

theorem isScalar_optional (key : String) (o : Option String) : ∀ member ∈ optional key o, member.2.IsScalar := by
  cases o with
  | none => simp [optional]
  | some s => simpa [optional] using IsScalar.text s

theorem keys_optional (key : String) (o : Option String) : ((optional key o).map Prod.fst).Sublist [key] := by
  cases o with
  | none => exact List.nil_sublist _
  | some s => exact List.Sublist.refl _

end Config

/-! ### Sections -/

open Config

namespace Destination

theorem isScalar (d : Destination) : ∀ member ∈ d.toMembers, member.2.IsScalar := by
  cases d with
  | file path => simp [toMembers, IsScalar.text]
  | tcp address => simp [toMembers, IsScalar.text]

theorem decode_written (d : Destination) : decode (.table (written d.toMembers)) = .ok d := by
  cases d with
  | file path => rfl
  | tcp address => rfl

theorem fits (d : Destination) (room : Nat) : Fits (room + 1) (.table d.toMembers) := by
  refine .of_scalars ?_ d.isScalar
  cases d with
  | file path => exact (show ["kind", "path"].Nodup by decide)
  | tcp address => exact (show ["kind", "address"].Nodup by decide)

end Destination

namespace NodeConfig

theorem isScalar (c : NodeConfig) : ∀ member ∈ c.toMembers, member.2.IsScalar := by
  simp [toMembers, IsScalar.text]

theorem decode_written (c : NodeConfig) : decode (.table (written c.toMembers)) = .ok c := rfl

theorem fits (c : NodeConfig) (room : Nat) : Fits (room + 1) (.table c.toMembers) :=
  .of_scalars (List.nodup_singleton "id") c.isScalar

end NodeConfig

namespace HttpConfig

theorem isScalar (c : HttpConfig) : ∀ member ∈ c.toMembers, member.2.IsScalar := by
  have hport : c.port.toNat ≤ Toml.maxInteger := Nat.le_trans (Nat.le_of_lt c.port.toNat_lt) (by decide)
  refine List.forall_mem_append.mpr ⟨?_, isScalar_optional _ _⟩
  simp [IsScalar.text, IsScalar.number _ hport]

theorem decode_written (c : HttpConfig) : decode (.table (written c.toMembers)) = .ok c := by
  rw [Plain.written_of_scalars c.isScalar, toMembers, Plain.toTable_append, decode, Decoder.record_table]
  have hport := Decoder.port_toNat c.port
  refine Decoder.fill_append ?_ (Decoder.fill_optional (HttpConfig.mk c.host c.port) (fun _ => rfl) c.askTimeout)
  simp only [toTable, Plain.toValue, Decoder.fill, List.foldlM_cons, hport]
  rfl

theorem fits (c : HttpConfig) (room : Nat) : Fits (room + 1) (.table c.toMembers) := by
  have hkeys : (c.toMembers.map Prod.fst).Sublist ["host", "port", "ask_timeout"] := by
    rw [toMembers, List.map_append]
    exact (List.Sublist.refl ["host", "port"]).append (keys_optional _ _)
  exact .of_scalars (hkeys.nodup (by decide)) c.isScalar

end HttpConfig

namespace PersistenceConfig

theorem isScalar (c : PersistenceConfig) : ∀ member ∈ c.toMembers, member.2.IsScalar := by
  simp only [toMembers, List.forall_mem_append]
  exact ⟨⟨⟨by simp [IsScalar.text], isScalar_optional _ _⟩, isScalar_optional _ _⟩, isScalar_optional _ _⟩

theorem decode_written (c : PersistenceConfig) : decode (.table (written c.toMembers)) = .ok c := by
  rw [Plain.written_of_scalars c.isScalar, toMembers, Plain.toTable_append, Plain.toTable_append,
    Plain.toTable_append, decode, Decoder.record_table]
  refine Decoder.fill_append (Decoder.fill_append (Decoder.fill_append ?_
    (Decoder.fill_optional (fun id => PersistenceConfig.mk c.path id none none) (fun _ => rfl) c.id))
    (Decoder.fill_optional (fun timeout => PersistenceConfig.mk c.path c.id timeout none) (fun _ => rfl) c.timeout))
    (Decoder.fill_optional (PersistenceConfig.mk c.path c.id c.timeout) (fun _ => rfl) c.interval)
  rfl

theorem fits (c : PersistenceConfig) (room : Nat) : Fits (room + 1) (.table c.toMembers) := by
  have hkeys : (c.toMembers.map Prod.fst).Sublist ["path", "persistence_id", "timeout", "interval"] := by
    rw [toMembers, List.map_append, List.map_append, List.map_append]
    exact (((List.Sublist.refl ["path"]).append (keys_optional _ _)).append (keys_optional _ _)).append
      (keys_optional _ _)
  exact .of_scalars (hkeys.nodup (by decide)) c.isScalar

end PersistenceConfig

namespace ClusterConfig

theorem isScalar (c : ClusterConfig) : ∀ member ∈ c.toMembers, member.2.IsScalar := isScalar_optional _ _

theorem decode_written (c : ClusterConfig) : decode (.table (written c.toMembers)) = .ok c := by
  rw [Plain.written_of_scalars c.isScalar, decode, Decoder.record_table]
  exact Decoder.fill_optional ClusterConfig.mk (fun _ => rfl) c.isolationDebounce

theorem fits (c : ClusterConfig) (room : Nat) : Fits (room + 1) (.table c.toMembers) :=
  .of_scalars ((keys_optional _ _).nodup (List.nodup_singleton _)) c.isScalar

end ClusterConfig

namespace TransportConfig

theorem isScalar (c : TransportConfig) : ∀ member ∈ c.toMembers, member.2.IsScalar :=
  List.forall_mem_append.mpr ⟨isScalar_optional _ _, isScalar_optional _ _⟩

theorem decode_written (c : TransportConfig) : decode (.table (written c.toMembers)) = .ok c := by
  rw [Plain.written_of_scalars c.isScalar, toMembers, Plain.toTable_append, decode, Decoder.record_table]
  exact Decoder.fill_append
    (Decoder.fill_optional (fun deadline => TransportConfig.mk deadline none) (fun _ => rfl) c.deadline)
    (Decoder.fill_optional (TransportConfig.mk c.deadline) (fun _ => rfl) c.restartBackoff)

theorem fits (c : TransportConfig) (room : Nat) : Fits (room + 1) (.table c.toMembers) := by
  have hkeys : (c.toMembers.map Prod.fst).Sublist ["deadline", "restart_backoff"] := by
    rw [toMembers, List.map_append]
    exact (keys_optional _ _).append (keys_optional _ _)
  exact .of_scalars (hkeys.nodup (by decide)) c.isScalar

end TransportConfig

namespace SignalConfig

theorem decode_written (c : SignalConfig) : decode (.table (written c.toMembers)) = .ok c := by
  obtain ⟨provider, destination, includeLiveness⟩ := c
  have hprovider := isScalar_optional "provider" provider
  have hflag : ∀ member ∈ [("include_liveness", Plain.bool includeLiveness)], member.2.IsScalar := by
    simp [IsScalar.bool]
  have hscalars : decode (.table (toTable (optional "provider" provider ++
      [("include_liveness", .bool includeLiveness)]))) = .ok ⟨provider, none, includeLiveness⟩ := by
    rw [Plain.toTable_append, decode, Decoder.record_table]
    refine Decoder.fill_append
      (Decoder.fill_optional (fun o => SignalConfig.mk o none false) (fun _ => rfl) provider) ?_
    rfl
  cases destination with
  | none =>
    rw [toMembers, List.append_nil, Plain.written_of_scalars (List.forall_mem_append.mpr ⟨hprovider, hflag⟩)]
    exact hscalars
  | some d =>
    rw [toMembers, Plain.written_of_table hprovider hflag, decode, Decoder.record_table]
    refine Decoder.fill_append hscalars ?_
    simp only [Decoder.fill, List.foldlM_cons, d.decode_written]
    rfl

theorem fits (c : SignalConfig) (room : Nat) : Fits (room + 2) (.table c.toMembers) := by
  have hkeys : (c.toMembers.map Prod.fst).Sublist ["provider", "transport", "include_liveness"] := by
    show List.Sublist _ (["provider"] ++ ["transport"] ++ ["include_liveness"])
    rw [toMembers, List.map_append, List.map_append]
    refine ((keys_optional _ _).append ?_).append (List.Sublist.refl _)
    cases c.destination with
    | none => exact List.nil_sublist _
    | some d => exact List.Sublist.refl _
  refine .table (hkeys.nodup (by decide)) ?_
  simp only [toMembers, List.forall_mem_append]
  refine ⟨⟨fun member hmem => .scalar (isScalar_optional _ _ member hmem), ?_⟩,
    by simpa using .scalar (.bool _)⟩
  cases c.destination with
  | none => simp
  | some d => simpa using d.fits room

end SignalConfig

namespace Config

/-- The document of a configuration is read as that configuration. -/
theorem ofTable_written (c : Config) : ofTable (written c.toMembers) = .ok c := by
  have hsections : written c.toMembers =
      [("node", .table (written c.node.toMembers)), ("http", .table (written c.http.toMembers)),
        ("liveness", .table (written c.liveness.toMembers)), ("readiness", .table (written c.readiness.toMembers)),
        ("persistence", .table (written c.persistence.toMembers)), ("cluster", .table (written c.cluster.toMembers)),
        ("transport", .table (written c.transport.toMembers))] := rfl
  rw [hsections, ofTable, Decoder.fill]
  simp only [List.foldlM_cons, decodeSection, NodeConfig.decode_written, HttpConfig.decode_written,
    SignalConfig.decode_written, PersistenceConfig.decode_written, ClusterConfig.decode_written,
    TransportConfig.decode_written]
  rfl

theorem parse_text (c : Config) : Toml.parse c.text = .ok (written c.toMembers) := by
  have hkeys : (c.toMembers.map Prod.fst).Nodup := by
    show ["node", "http", "liveness", "readiness", "persistence", "cluster", "transport"].Nodup
    decide
  refine Plain.parse_render hkeys ?_
  simp only [toMembers, List.forall_mem_cons]
  exact ⟨c.node.fits _, c.http.fits _, c.liveness.fits _, c.readiness.fits _, c.persistence.fits _,
    c.cluster.fits _, c.transport.fits _, by simp⟩

theorem load_toUTF8 {s : String} {members : Toml.Table} {c : Config} (hs : Toml.parse s = .ok members)
    (hc : ofTable members = .ok c) : load (some s.toUTF8) = .ok c := by
  have hbytes : String.fromUTF8? s.toUTF8 = some s := dif_pos s.isValidUTF8
  rw [load, ofBytes, hbytes]
  simp only [ofText, hs, Except.mapError, hc, bind, Except.bind]

/-- The bytes of the text that shows a configuration hold that configuration. -/
theorem load_text (c : Config) : load (some c.text.toUTF8) = .ok c :=
  load_toUTF8 c.parse_text c.ofTable_written

end Config

/-! ### Printing -/

namespace CommandLine

/-- Every configuration has one text: a file with that text holds the configuration, and so all that is derived from
it; and the text is what is printed wherever the configuration comes from, that file included. -/
theorem Command.printed_config {command : Command} (haction : command.action = .config) (files : FileTree)
    (c : Config) :
    ∃ text, (∀ file, Config.load file = .ok c → command.execute (.ok file) files = .done ⟨0, text, ""⟩) ∧
      Config.load (some text.toUTF8) = .ok c ∧
      command.execute (.ok (some text.toUTF8)) files = .done ⟨0, text, ""⟩ := by
  have hprint (file : Option ByteArray) (hload : Config.load file = .ok c) :
      command.execute (.ok file) files = .done ⟨0, c.text, ""⟩ := by
    have hcontent : (Except.mapError Config.LoadError.io (.ok file)).bind Config.load = .ok c := hload
    rw [Command.execute, hcontent]
    simp only [haction]
  exact ⟨c.text, hprint, c.load_text, hprint _ c.load_text⟩

def oddConfig : Config where
  node := ⟨"\"\"\"\nlines"⟩
  http := ⟨"''\"\"", 0, some "\x07"⟩
  liveness := ⟨some "C:\\", some (.tcp "\"::1\"'"), true⟩
  readiness := ⟨none, some (.file "'''\"\"\"\\\n\t"), false⟩
  persistence := ⟨"", none, some "5s", none⟩

theorem Command.printed_oddConfig :
    let command : Command := ⟨.config, "pulse.toml", .text⟩
    command.action = .config ∧
      ∃ text, (∀ file, Config.load file = .ok oddConfig →
          command.execute (.ok file) .empty = .done ⟨0, text, ""⟩) ∧
        Config.load (some text.toUTF8) = .ok oddConfig ∧
        command.execute (.ok (some text.toUTF8)) .empty = .done ⟨0, text, ""⟩ := by
  intro command
  have haction : command.action = .config := rfl
  exact ⟨haction, Command.printed_config haction .empty oddConfig⟩

end CommandLine
end HealthSignal
