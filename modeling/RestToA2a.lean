import RestToA2a.Policy.NumericKeys
import RestToA2a.Policy.TaskState
import RestToA2a.Policy.Recording
import RestToA2a.Policy.JsonLabel
import RestToA2a.Policy.Collisions
import RestToA2a.Policy.Provenance
import RestToA2a.Policy.SelectGrammar
import RestToA2a.Policy.CacheContention
import RestToA2a.Policy.SendEncoding
import RestToA2a.Policy.MessageIds
import RestToA2a.Policy.Defaults
import RestToA2a.Policy.Isolation
import RestToA2a.Policy.TurnOutcome
import RestToA2a.Policy.HostRefinement
import RestToA2a.Policy.HostProtocol
import RestToA2a.Policy.Configure
import RestToA2a.Policy.BindingChange
import RestToA2a.Policy.SchemaDefaults
import RestToA2a.Policy.StoredEntry
import RestToA2a.Policy.UndecodableEntry
import RestToA2a.Policy.ConversationMemory
import RestToA2a.Policy.Confidentiality
