import ApiClient.Descriptor.Step
import ApiClient.Enumeration.Overlay
import ApiClient.PetStore.Loopback
import ApiClient.PetStore.Server
import ApiClient.Proofs.Json.ItemList
import ApiClient.Proofs.Text.Utf8
import ApiClient.Proofs.Json.ReadBack
import ApiClient.Proofs.Json.Faithful
import ApiClient.Proofs.Descriptor.JsonBody
import ApiClient.Proofs.Text.Percent
import ApiClient.Proofs.Query
import ApiClient.Proofs.Classification
import ApiClient.Proofs.PetStore.Uuid
import ApiClient.Proofs.PetStore.Pet
import ApiClient.Proofs.PetStore.Store
import ApiClient.Proofs.PetStore.Arrival
import ApiClient.Proofs.PetStore.Calls
import ApiClient.Proofs.PetStore.Loopback
import ApiClient.Proofs.PetStore.Session
import ApiClient.Proofs.Enumeration.Chain
import ApiClient.Proofs.Descriptor.Headers
import ApiClient.Proofs.Text.Form
import ApiClient.Proofs.Json.RecordText
import ApiClient.Proofs.PetStore.Tags
import ApiClient.Proofs.PetStore.Echo
import ApiClient.Proofs.Execution.Trace
import ApiClient.Proofs.Execution.Token
import ApiClient.Proofs.PetStore.Clients
import ApiClient.Proofs.PetStore.Creation
import ApiClient.Proofs.Descriptor.Merge
import ApiClient.Proofs.Descriptor.BodyType
import ApiClient.Proofs.Text.Utf8Order
import ApiClient.Proofs.PetStore.Listing
import ApiClient.Proofs.PetStore.Spelling
import ApiClient.Proofs.Enumeration.Order
import ApiClient.Proofs.Enumeration.Values
import ApiClient.Proofs.Structured
import ApiClient.Proofs.PetStore.EchoText
import ApiClient.Proofs.Records
import ApiClient.Proofs.Text.Lossy
import ApiClient.Proofs.Interpretation
import ApiClient.Proofs.Descriptor.Steps
import ApiClient.Proofs.PetStore.Upload
import ApiClient.Proofs.ContentType
import ApiClient.Proofs.StatusTable
